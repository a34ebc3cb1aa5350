import EndpointAtlas.Text.Basic

/-! Pieces of a text and their join. A text is the join of the pieces it is split into, and pieces that
    do not hold the separator are found again in their join. All of it holds of bytes too. -/

namespace EndpointAtlas.Text

variable {α : Type}

/-! ### Joins -/

theorem joinWith_cons {ps : List (List α)} (h : ps ≠ []) (sep p : List α) :
    joinWith sep (p :: ps) = p ++ sep ++ joinWith sep ps := by
  cases ps with
  | nil => exact absurd rfl h
  | cons q ps => rfl

theorem joinWith_cons_cons (sep : List α) (c : α) (p : List α) (ps : List (List α)) :
    joinWith sep ((c :: p) :: ps) = c :: joinWith sep (p :: ps) := by
  cases ps <;> rfl

theorem joinWith_cons_eq_flatMap (sep p : List α) (ps : List (List α)) :
    joinWith sep (p :: ps) = p ++ ps.flatMap (sep ++ ·) := by
  induction ps generalizing p with
  | nil => simp [joinWith]
  | cons q ps ih => rw [joinWith, ih, List.flatMap_cons, List.append_assoc, List.append_assoc]

theorem mem_joinWith {sep : List α} {ps : List (List α)} {c : α} (h : c ∈ joinWith sep ps) :
    c ∈ sep ∨ ∃ p ∈ ps, c ∈ p := by
  induction ps with
  | nil => cases h
  | cons p ps ih =>
    cases ps with
    | nil => exact Or.inr ⟨p, List.mem_cons_self, h⟩
    | cons q ps =>
      rw [joinWith_cons (by simp)] at h
      rcases List.mem_append.mp h with h | h
      · rcases List.mem_append.mp h with h | h
        · exact Or.inr ⟨p, List.mem_cons_self, h⟩
        · exact Or.inl h
      · rcases ih h with h | ⟨r, hr, h⟩
        · exact Or.inl h
        · exact Or.inr ⟨r, List.mem_cons_of_mem _ hr, h⟩

theorem mem_joinWith_of_mem {sep : List α} {ps : List (List α)} {p : List α} {c : α} (hp : p ∈ ps) (h : c ∈ p) :
    c ∈ joinWith sep ps := by
  induction ps with
  | nil => cases hp
  | cons q ps ih =>
    cases ps with
    | nil =>
      rw [List.mem_singleton.mp hp] at h
      exact h
    | cons r ps =>
      rw [joinWith_cons (by simp)]
      rcases List.mem_cons.mp hp with rfl | hp
      · exact List.mem_append_left _ (List.mem_append_left _ h)
      · exact List.mem_append_right _ (ih hp)

/-- Leaving pieces out makes no join longer. -/
theorem length_joinWith_le {sep : List α} {ps qs : List (List α)} (h : ps.Sublist qs) :
    (joinWith sep ps).length ≤ (joinWith sep qs).length := by
  induction h with
  | slnil => exact Nat.le_refl _
  | @cons ps qs q h ih =>
    cases qs with
    | nil =>
      rw [List.sublist_nil.mp h]
      exact Nat.zero_le _
    | cons r qs =>
      rw [joinWith_cons (by simp) sep q, List.length_append]
      exact Nat.le_trans ih (Nat.le_add_left _ _)
  | @cons_cons ps qs p h ih =>
    cases ps with
    | nil =>
      cases qs with
      | nil => exact Nat.le_refl _
      | cons q qs =>
        rw [joinWith_cons (List.cons_ne_nil q qs) sep p, List.length_append, List.length_append, Nat.add_assoc]
        exact Nat.le_add_right _ _
    | cons q ps =>
      have hne : qs ≠ [] := by
        rintro rfl
        simp at h
      rw [joinWith_cons (by simp) sep p, joinWith_cons hne sep p, List.length_append, @List.length_append _ (p ++ sep)]
      exact Nat.add_le_add_left ih _

/-! ### Splits -/

variable [DecidableEq α]

theorem splitOn_ne_nil (d : α) (t : List α) : splitOn d t ≠ [] := by
  cases t with
  | nil => simp [splitOn]
  | cons c t =>
    rw [splitOn]
    split
    · simp
    · split <;> simp

theorem joinWith_splitOn (d : α) (t : List α) : joinWith [d] (splitOn d t) = t := by
  induction t with
  | nil => rfl
  | cons c t ih =>
    rw [splitOn]
    by_cases hc : c = d
    · rw [if_pos hc, joinWith_cons (splitOn_ne_nil d t), ih, hc]
      rfl
    · rw [if_neg hc]
      cases hs : splitOn d t with
      | nil => exact absurd hs (splitOn_ne_nil d t)
      | cons p ps =>
        rw [hs] at ih
        cases ps with
        | nil =>
          rw [← ih]
          rfl
        | cons q ps =>
          rw [← ih]
          rfl

theorem splitOn_of_not_mem {d : α} {p : List α} (h : d ∉ p) : splitOn d p = [p] := by
  induction p with
  | nil => rfl
  | cons c p ih =>
    obtain ⟨hc, hp⟩ := not_or.mp (mt List.mem_cons.mpr h)
    rw [splitOn, if_neg (Ne.symm hc), ih hp]

theorem splitOn_append (d : α) (s t : List α) : splitOn d (s ++ d :: t) = splitOn d s ++ splitOn d t := by
  induction s with
  | nil => simp [splitOn]
  | cons c s ih =>
    rw [List.cons_append, splitOn, splitOn, ih]
    by_cases hc : c = d
    · rw [if_pos hc, if_pos hc, List.cons_append]
    · rw [if_neg hc, if_neg hc]
      cases hs : splitOn d s with
      | nil => exact absurd hs (splitOn_ne_nil d s)
      | cons p ps => rfl

theorem splitOn_append_cons {d : α} {p : List α} (h : d ∉ p) (t : List α) :
    splitOn d (p ++ d :: t) = p :: splitOn d t := by
  rw [splitOn_append, splitOn_of_not_mem h, List.singleton_append]

theorem splitOn_joinWith {d : α} {ps : List (List α)} (hne : ps ≠ []) (h : ∀ p ∈ ps, d ∉ p) :
    splitOn d (joinWith [d] ps) = ps := by
  induction ps with
  | nil => exact absurd rfl hne
  | cons p ps ih =>
    cases ps with
    | nil => exact splitOn_of_not_mem (h p List.mem_cons_self)
    | cons q ps =>
      rw [joinWith_cons (by simp), List.append_assoc, List.singleton_append,
        splitOn_append_cons (h p List.mem_cons_self), ih (by simp) fun r hr => h r (List.mem_cons_of_mem _ hr)]

theorem not_mem_of_mem_splitOn {d : α} {t p : List α} (hp : p ∈ splitOn d t) : d ∉ p := by
  induction t generalizing p with
  | nil =>
    rw [splitOn, List.mem_singleton] at hp
    simp [hp]
  | cons c t ih =>
    rw [splitOn] at hp
    by_cases hc : c = d
    · rw [if_pos hc] at hp
      rcases List.mem_cons.mp hp with rfl | hp
      · simp
      · exact ih hp
    · rw [if_neg hc] at hp
      cases hs : splitOn d t with
      | nil => exact absurd hs (splitOn_ne_nil d t)
      | cons q qs =>
        simp only [hs] at hp ih
        rcases List.mem_cons.mp hp with rfl | hp
        · intro hd
          rcases List.mem_cons.mp hd with hd | hd
          · exact hc hd.symm
          · exact ih List.mem_cons_self hd
        · exact ih (List.mem_cons_of_mem _ hp)

end EndpointAtlas.Text
