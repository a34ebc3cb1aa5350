import EndpointAtlas.Keyed
import Mathlib.Data.List.Basic
import Mathlib.Data.List.Induction

/-! Lists of pairs that are set one after the other. The pair that was set last under a key is the one
    that is found, while the keys keep the order in which they first appeared: the two ends of the list
    count for the two questions. -/

namespace EndpointAtlas.Keyed

variable {κ α : Type} [DecidableEq κ]

/-- `a` stands under `k` in some pair, and no later pair has that key. -/
def IsLast (pairs : List (κ × α)) (k : κ) (a : α) : Prop :=
  ∃ before after, pairs = before ++ (k, a) :: after ∧ ∀ p ∈ after, p.1 ≠ k

theorem isLast_concat {pairs : List (κ × α)} {p : κ × α} {k : κ} {a : α} :
    IsLast (pairs ++ [p]) k a ↔ if k = p.1 then a = p.2 else IsLast pairs k a := by
  constructor
  · rintro ⟨before, after, split, later⟩
    rcases List.eq_nil_or_concat' after with rfl | ⟨after, q, rfl⟩
    · obtain ⟨-, rfl⟩ := List.append_inj' split rfl |>.imp_right List.singleton_inj.mp
      simp
    · rw [← List.cons_append, ← List.append_assoc] at split
      obtain ⟨rfl, rfl⟩ := List.append_inj' split rfl |>.imp_right List.singleton_inj.mp
      have hne : p.1 ≠ k := later p (by simp)
      rw [if_neg (Ne.symm hne)]
      exact ⟨before, after, rfl, fun q hq => later q (by simp [hq])⟩
  · intro h
    by_cases hk : k = p.1
    · rw [if_pos hk] at h
      exact ⟨pairs, [], by rw [hk, h], by simp⟩
    · rw [if_neg hk] at h
      obtain ⟨before, after, rfl, later⟩ := h
      refine ⟨before, after ++ [p], by simp, fun q hq => ?_⟩
      rcases List.mem_append.mp hq with hq | hq
      · exact later q hq
      · rw [List.mem_singleton.mp hq]
        exact Ne.symm hk

theorem ofList_concat (pairs : List (κ × α)) (p : κ × α) :
    ofList (pairs ++ [p]) = set p.1 p.2 (ofList pairs) := by
  simp [ofList]

theorem get?_ofList_eq_some_iff {pairs : List (κ × α)} {k : κ} {a : α} :
    get? k (ofList pairs) = some a ↔ IsLast pairs k a := by
  induction pairs using List.reverseRecOn with
  | nil => simp [ofList, get?, IsLast]
  | append_singleton pairs p ih =>
    rw [ofList_concat, get?_set, isLast_concat]
    by_cases hk : k = p.1
    · simp only [hk, if_true, Option.some.injEq]
      exact eq_comm
    · simp only [hk, if_false, ih]

theorem mem_keys_ofList {pairs : List (κ × α)} {k : κ} :
    k ∈ keys (ofList pairs) ↔ k ∈ pairs.map (·.1) := by
  induction pairs using List.reverseRecOn with
  | nil => simp [ofList, keys]
  | append_singleton pairs p ih =>
    rw [ofList_concat, keys_set, List.map_append, List.mem_append, ← ih]
    by_cases hp : p.1 ∈ keys (ofList pairs)
    · rw [if_pos hp]
      constructor
      · exact Or.inl
      · rintro (h | h)
        · exact h
        · rw [List.map_singleton, List.mem_singleton] at h
          exact h ▸ hp
    · rw [if_neg hp, List.mem_append, List.map_singleton]

theorem eraseDups_concat (l : List κ) (k : κ) :
    (l ++ [k]).eraseDups = if k ∈ l then l.eraseDups else l.eraseDups ++ [k] := by
  rw [List.eraseDups_append]
  by_cases hk : k ∈ l
  · simp [List.removeAll, hk]
  · simp [List.removeAll, hk, List.eraseDups_cons]

/-- The keys are those of the pairs, each where it stands first. -/
theorem keys_ofList (pairs : List (κ × α)) : keys (ofList pairs) = (pairs.map (·.1)).eraseDups := by
  induction pairs using List.reverseRecOn with
  | nil => rfl
  | append_singleton pairs p ih =>
    rw [ofList_concat, keys_set, List.map_append, List.map_singleton, eraseDups_concat, ← ih]
    by_cases hp : p.1 ∈ keys (ofList pairs)
    · rw [if_pos hp, if_pos (mem_keys_ofList.mp hp)]
    · rw [if_neg hp, if_neg (mt mem_keys_ofList.mpr hp)]

theorem eraseDups_filter (f : κ → Bool) (l : List κ) : (l.filter f).eraseDups = l.eraseDups.filter f := by
  induction l using List.reverseRecOn with
  | nil => rfl
  | append_singleton l k ih =>
    rw [eraseDups_concat, List.filter_append]
    by_cases hf : f k = true
    · have hlast : [k].filter f = [k] := by simp [hf]
      rw [hlast, eraseDups_concat, ih]
      by_cases hk : k ∈ l
      · rw [if_pos hk, if_pos (List.mem_filter.mpr ⟨hk, hf⟩)]
      · rw [if_neg hk, if_neg fun h => hk (List.mem_filter.mp h).1, List.filter_append, hlast]
    · have hlast : [k].filter f = [] := by simp [hf]
      rw [hlast, List.append_nil, ih]
      by_cases hk : k ∈ l
      · rw [if_pos hk]
      · rw [if_neg hk, List.filter_append, hlast, List.append_nil]

theorem set_eq_self {l : Keyed κ α} {k : κ} {a : α} (h : get? k l = some a) : set k a l = l := by
  induction l with
  | nil => cases h
  | cons p l ih =>
    obtain ⟨j, b⟩ := p
    by_cases hj : j = k
    · rw [get?, if_pos hj, Option.some.injEq] at h
      rw [set, if_pos hj, h]
    · rw [get?, if_neg hj] at h
      rw [set, if_neg hj, ih h]

theorem mem_keys_iff_isSome {l : Keyed κ α} {k : κ} : k ∈ keys l ↔ (get? k l).isSome := by
  induction l with
  | nil => simp [keys, get?]
  | cons p l ih =>
    obtain ⟨j, b⟩ := p
    by_cases hj : j = k
    · simp [keys, get?, hj]
    · unfold keys at ih ⊢
      simp [get?, hj, Ne.symm hj, ih]

/-- Where no key comes twice, a pair is listed exactly if it is found. -/
theorem mem_iff_get? {l : Keyed κ α} (h : (keys l).Nodup) {k : κ} {a : α} : (k, a) ∈ l ↔ get? k l = some a := by
  induction l with
  | nil => simp [get?]
  | cons p l ih =>
    obtain ⟨j, b⟩ := p
    obtain ⟨hj, h⟩ := List.nodup_cons.mp h
    by_cases hjk : j = k
    · subst hjk
      have hout : (j, a) ∉ l := fun hmem => hj (List.mem_map.mpr ⟨(j, a), hmem, rfl⟩)
      simp [get?, hout, eq_comm]
    · simp [get?, hjk, Ne.symm hjk, ih h]

/-- The keys are ordered by where each of them is found first. -/
theorem keys_ofList_pairwise (pairs : List (κ × α)) :
    (keys (ofList pairs)).Pairwise fun j k => (pairs.map (·.1)).idxOf j < (pairs.map (·.1)).idxOf k := by
  induction pairs using List.reverseRecOn with
  | nil => simp [ofList, keys]
  | append_singleton pairs p ih =>
    have first : ∀ k ∈ keys (ofList pairs),
        (pairs.map (·.1) ++ [p.1]).idxOf k = (pairs.map (·.1)).idxOf k := fun k hk =>
      List.idxOf_append_of_mem (mem_keys_ofList.mp hk)
    have before : (keys (ofList pairs)).Pairwise fun j k =>
        (pairs.map (·.1) ++ [p.1]).idxOf j < (pairs.map (·.1) ++ [p.1]).idxOf k :=
      ih.imp_of_mem fun hj hk h => by rwa [first _ hj, first _ hk]
    rw [ofList_concat, keys_set, List.map_append, List.map_singleton]
    by_cases hp : p.1 ∈ keys (ofList pairs)
    · rwa [if_pos hp]
    · rw [if_neg hp, List.pairwise_append]
      refine ⟨before, List.pairwise_singleton _ _, fun j hj k hk => ?_⟩
      rw [List.mem_singleton.mp hk, first j hj, List.idxOf_append_of_notMem fun h => hp (mem_keys_ofList.mpr h)]
      exact Nat.lt_of_lt_of_le (List.idxOf_lt_length_of_mem (mem_keys_ofList.mp hj)) (Nat.le_add_right _ _)

/-! ### Changed values -/

section Map
variable {β : Type} (f : α → β)

theorem set_map (k : κ) (a : α) (l : Keyed κ α) :
    set k (f a) (l.map fun p => (p.1, f p.2)) = (set k a l).map fun p => (p.1, f p.2) := by
  induction l with
  | nil => rfl
  | cons p l ih =>
    by_cases hp : p.1 = k
    · simp [set, hp]
    · simp [set, hp, ih]

theorem ofList_map (pairs : List (κ × α)) :
    ofList (pairs.map fun p => (p.1, f p.2)) = (ofList pairs).map fun p => (p.1, f p.2) := by
  induction pairs using List.reverseRecOn with
  | nil => rfl
  | append_singleton pairs p ih =>
    rw [List.map_append, List.map_singleton, ofList_concat, ofList_concat, ih]
    exact set_map f p.1 p.2 (ofList pairs)

theorem get?_map (k : κ) (l : Keyed κ α) : get? k (l.map fun p => (p.1, f p.2)) = (get? k l).map f := by
  induction l with
  | nil => rfl
  | cons p l ih =>
    by_cases hp : p.1 = k
    · simp [get?, hp]
    · simp [get?, hp, ih]

omit [DecidableEq κ] in
theorem keys_map (l : Keyed κ α) : keys (l.map fun p => (p.1, f p.2)) = keys l := by
  rw [keys, List.map_map]
  rfl

end Map

end EndpointAtlas.Keyed
