import EndpointAtlas.Proofs.Text.Lines
import EndpointAtlas.Text.Find

/-! Texts that differ in their line ends only. Their lines are the same, and a reader that treats the two characters of
    a line end alike reads the same from them, so that what it finds first in the one it finds first in the other. -/

namespace EndpointAtlas.Text

variable {α : Type} {p : Char → Bool} {r : Reader α} {lead t : Text}

/-! ### Unified line ends -/

/-- Every line feed is replaced by a carriage return and a line feed. -/
def pairLineEnds (t : Text) : Text := t.flatMap fun c => if c = '\n' then ['\r', '\n'] else [c]

theorem unifyLineEnds_pairLineEnds (h : '\r' ∉ t) : unifyLineEnds (pairLineEnds t) = t := by
  induction t with
  | nil => rfl
  | cons c t ih =>
    rw [List.mem_cons, not_or] at h
    rw [pairLineEnds, List.flatMap_cons]
    by_cases hc : c = '\n'
    · rw [if_pos hc, hc]
      exact congrArg ('\n' :: ·) (ih h.2)
    · rw [if_neg hc, List.singleton_append, unifyLineEnds_cons fun hreturn => absurd hreturn.symm h.1]
      exact congrArg (c :: ·) (ih h.2)

theorem unifyLineEnds_of_not_mem (h : '\r' ∉ t) : unifyLineEnds t = t := by
  have hpair : ¬ ['\r', '\n'] <:+: t := fun hin => h (hin.subset List.mem_cons_self)
  have hself := unifyLineEnds_append (t := []) hpair (by simp)
  rwa [List.append_nil, unifyLineEnds, List.append_nil] at hself

theorem length_unifyLineEnds_le (t : Text) : (unifyLineEnds t).length ≤ t.length := by
  fun_induction unifyLineEnds t with
  | case1 => exact Nat.le_refl 0
  | case2 t ih => exact Nat.succ_le_succ (Nat.le_succ_of_le ih)
  | case3 c t hnot ih => exact Nat.succ_le_succ ih

/-- Where every carriage return belongs to a line end, the lines stay as they are. -/
theorem lines_unifyLineEnds (h : '\r' ∉ unifyLineEnds t) : lines (unifyLineEnds t) = lines t := by
  fun_induction unifyLineEnds t with
  | case1 => rfl
  | case2 t ih => exact congrArg ([] :: ·) (ih fun hmem => h (List.mem_cons_of_mem _ hmem))
  | case3 c t hnot ih =>
    rw [List.mem_cons, not_or] at h
    by_cases hc : c = '\n'
    · rw [hc]
      exact congrArg ([] :: ·) (ih h.2)
    · rw [lines_cons hc (Ne.symm h.1), lines_cons hc (Ne.symm h.1), ih h.2]

/-- Runs of characters are the same if both characters of a line end belong to them, or neither. -/
theorem takeWhile_dropWhile_unifyLineEnds (hp : p '\r' = p '\n') (t : Text) :
    (unifyLineEnds t).takeWhile p = unifyLineEnds (t.takeWhile p) ∧
      (unifyLineEnds t).dropWhile p = unifyLineEnds (t.dropWhile p) := by
  fun_induction unifyLineEnds t with
  | case1 => exact ⟨rfl, rfl⟩
  | case2 t ih =>
    by_cases hfeed : p '\n' = true
    · have hreturn : p '\r' = true := hp.trans hfeed
      rw [List.takeWhile_cons_of_pos hfeed, List.dropWhile_cons_of_pos hfeed, List.takeWhile_cons_of_pos hreturn,
        List.dropWhile_cons_of_pos hreturn, List.takeWhile_cons_of_pos hfeed, List.dropWhile_cons_of_pos hfeed,
        ih.1, ih.2]
      exact ⟨rfl, rfl⟩
    · have hreturn : ¬ p '\r' = true := by rwa [hp]
      rw [List.takeWhile_cons_of_neg hfeed, List.dropWhile_cons_of_neg hfeed, List.takeWhile_cons_of_neg hreturn,
        List.dropWhile_cons_of_neg hreturn]
      exact ⟨rfl, rfl⟩
  | case3 c t hnot ih =>
    have hpair : c = '\r' → t.head? ≠ some '\n' := by
      rintro rfl hhead
      obtain ⟨u, rfl⟩ := List.head?_eq_some_iff.mp hhead
      exact hnot u rfl rfl
    by_cases hc : p c = true
    · have hpair' : c = '\r' → (t.takeWhile p).head? ≠ some '\n' := by
        intro hreturn hhead
        rw [List.head?_takeWhile, Option.filter_eq_some_iff] at hhead
        exact hpair hreturn hhead.1
      rw [List.takeWhile_cons_of_pos hc, List.dropWhile_cons_of_pos hc, List.takeWhile_cons_of_pos hc,
        List.dropWhile_cons_of_pos hc, unifyLineEnds_cons hpair', ih.1]
      exact ⟨rfl, ih.2⟩
    · rw [List.takeWhile_cons_of_neg hc, List.dropWhile_cons_of_neg hc, List.takeWhile_cons_of_neg hc,
        List.dropWhile_cons_of_neg hc, unifyLineEnds_cons hpair]
      exact ⟨rfl, rfl⟩

theorem trimStart_unifyLineEnds (t : Text) : trimStart (unifyLineEnds t) = unifyLineEnds (trimStart t) :=
  (takeWhile_dropWhile_unifyLineEnds rfl t).2

theorem dropLead?_unifyLineEnds (h : IsPlainLine lead) (t : Text) :
    dropLead? lead (unifyLineEnds t) = (dropLead? lead t).map unifyLineEnds := by
  induction lead generalizing t with
  | nil => rfl
  | cons a lead ih =>
    obtain ⟨hfeed, hreturn⟩ := h
    rw [List.mem_cons, not_or] at hfeed hreturn
    fun_cases unifyLineEnds t with
    | case1 => rfl
    | case2 t =>
      rw [dropLead?, dropLead?, if_neg (Ne.symm hfeed.1), if_neg (Ne.symm hreturn.1)]
      rfl
    | case3 c t hnot =>
      by_cases ha : a = c
      · rw [dropLead?, dropLead?, if_pos ha, if_pos ha, ih ⟨hfeed.2, hreturn.2⟩]
      · rw [dropLead?, dropLead?, if_neg ha, if_neg ha]
        rfl

/-! ### Readers -/

/-- The same is read, and the same follows, whichever line ends a text has. -/
def IgnoresLineEnds (f : Text → Option (α × Text)) : Prop :=
  ∀ t, f (unifyLineEnds t) = (f t).map (Prod.map id unifyLineEnds)

theorem ignoresLineEnds_word? : IgnoresLineEnds word? := by
  intro t
  have hreturn : isWordChar '\r' = false := rfl
  have hfeed : isWordChar '\n' = false := rfl
  obtain ⟨htake, hdrop⟩ := takeWhile_dropWhile_unifyLineEnds (hreturn.trans hfeed.symm) t
  have hword : '\r' ∉ t.takeWhile isWordChar := fun hmem =>
    Bool.false_ne_true (hreturn.symm.trans (List.mem_takeWhile_imp hmem))
  rw [unifyLineEnds_of_not_mem hword] at htake
  rw [word?, word?, htake, hdrop]
  cases t.takeWhile isWordChar <;> rfl

/-- A search ignores line ends if its reader does and begins at neither character of one. -/
theorem ignoresLineEnds_find? (hr : ∀ before, IgnoresLineEnds (r before))
    (hend : ∀ before t, r before ('\r' :: t) = none ∧ r before ('\n' :: t) = none) (before : Option Char) :
    IgnoresLineEnds (find? r before) := by
  intro t
  fun_induction unifyLineEnds t generalizing before with
  | case1 => exact hr before []
  | case2 t ih =>
    rw [find?, find?, find?, (hend _ _).1, (hend _ _).2, (hend _ _).2]
    exact ih _
  | case3 c t hnot ih =>
    have hread := hr before (c :: t)
    rw [unifyLineEnds] at hread
    · rw [find?, find?, hread, ih]
      cases r before (c :: t) <;> rfl
    · exact hnot

theorem first?_unifyLineEnds (hr : ∀ before, IgnoresLineEnds (r before))
    (hend : ∀ before t, r before ('\r' :: t) = none ∧ r before ('\n' :: t) = none) (t : Text) :
    first? r (unifyLineEnds t) = first? r t := by
  rw [first?, first?, ignoresLineEnds_find? hr hend none t, Option.map_map]
  rfl

end EndpointAtlas.Text
