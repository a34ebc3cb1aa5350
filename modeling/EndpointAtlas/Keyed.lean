/-!
# Keyed lists

A keyed list holds at most one value for each key. Setting a key that is present replaces its value
where it stands; a new key goes to the end. So the keys stand in the order in which they were first
set, and each has the value that was set last. -/

namespace EndpointAtlas

/-- Values under keys, in the order in which the keys were first set. -/
abbrev Keyed (κ α : Type) := List (κ × α)

namespace Keyed

variable {κ α : Type} [DecidableEq κ]

/-- The list with `a` under the key `k`. -/
def set (k : κ) (a : α) : Keyed κ α → Keyed κ α
  | [] => [(k, a)]
  | (j, b) :: l => if j = k then (j, a) :: l else (j, b) :: set k a l

/-- The keys in order. -/
def keys (l : Keyed κ α) : List κ := l.map (·.1)

/-- The value under a key. -/
def get? (k : κ) : Keyed κ α → Option α
  | [] => none
  | (j, a) :: l => if j = k then some a else get? k l

/-- All pairs set one after the other. -/
def ofList (pairs : List (κ × α)) : Keyed κ α := pairs.foldl (fun l (k, a) => set k a l) []

theorem get?_set (j k : κ) (a : α) (l : Keyed κ α) :
    get? j (set k a l) = if j = k then some a else get? j l := by
  induction l with
  | nil =>
    by_cases h : k = j
    · simp [set, get?, h]
    · simp [set, get?, h, Ne.symm h]
  | cons p l ih =>
    obtain ⟨i, b⟩ := p
    by_cases hik : i = k
    · subst hik
      by_cases hij : i = j
      · simp [set, get?, hij]
      · simp [set, get?, hij, Ne.symm hij]
    · by_cases hij : i = j
      · subst hij
        simp [set, get?, hik]
      · simp [set, get?, hik, hij, ih]

theorem keys_set (k : κ) (a : α) (l : Keyed κ α) :
    keys (set k a l) = if k ∈ keys l then keys l else keys l ++ [k] := by
  induction l with
  | nil => simp [set, keys]
  | cons p l ih =>
    obtain ⟨i, b⟩ := p
    by_cases hik : i = k
    · simp [set, keys, hik]
    · unfold keys at ih ⊢
      simp only [set, if_neg hik, List.map_cons, ih, List.mem_cons, Ne.symm hik, false_or]
      split <;> rfl

end Keyed

end EndpointAtlas
