import EndpointAtlas.Proofs.Text.Lines
import Mathlib.Data.List.TakeWhile

/-! Spaces and tabs at the front of lines. Taking them away from every line of a text, joining lines and trimming
    a text may be done in any order. -/

namespace EndpointAtlas.Text

/-- A space or a tab. -/
def isIndent (c : Char) : Bool := c == ' ' || c == '\t'

/-- A line without the spaces and tabs at its front. -/
def unindented (l : Text) : Text := l.dropWhile isIndent

/-- A text without the spaces and tabs at the front of its lines. `atFront` tells whether a line begins here or
    had only spaces and tabs so far. -/
def unindentFrom (atFront : Bool) : Text → Text
  | [] => []
  | c :: t => if atFront && isIndent c then unindentFrom true t else c :: unindentFrom (c == '\n') t

/-- A text without the spaces and tabs at the front of each of its lines. -/
def unindent (t : Text) : Text := unindentFrom true t

variable {atFront : Bool} {l t : Text} {c : Char}

theorem isBlank_of_isIndent (h : isIndent c = true) : isBlank c = true := by
  simp only [isIndent, Bool.or_eq_true, beq_iff_eq] at h
  rcases h with rfl | rfl <;> rfl

theorem unindentFrom_cons_of_isIndent (h : isIndent c = true) (t : Text) :
    unindentFrom true (c :: t) = unindentFrom true t := by
  rw [unindentFrom, h]
  rfl

theorem unindentFrom_cons (h : atFront = false ∨ isIndent c = false) (t : Text) :
    unindentFrom atFront (c :: t) = c :: unindentFrom (c == '\n') t := by
  rw [unindentFrom, if_neg]
  rcases h with h | h <;> simp [h]

/-- Either the first character is taken away or it is kept. -/
theorem unindentFrom_cons_cases (atFront : Bool) (c : Char) (t : Text) :
    (isIndent c = true ∧ unindentFrom atFront (c :: t) = unindentFrom true t) ∨
    unindentFrom atFront (c :: t) = c :: unindentFrom (c == '\n') t := by
  cases atFront with
  | false => exact Or.inr (unindentFrom_cons (Or.inl rfl) t)
  | true =>
    by_cases hc : isIndent c = true
    · exact Or.inl ⟨hc, unindentFrom_cons_of_isIndent hc t⟩
    · exact Or.inr (unindentFrom_cons (Or.inr (Bool.eq_false_iff.mpr hc)) t)

/-! ### Joined lines -/

theorem unindentFrom_append_newline (l t : Text) :
    unindentFrom atFront (l ++ '\n' :: t) = unindentFrom atFront l ++ '\n' :: unindent t := by
  induction l generalizing atFront with
  | nil => exact unindentFrom_cons (Or.inr rfl) t
  | cons c l ih =>
    rw [List.cons_append, unindentFrom, unindentFrom]
    split
    · exact ih
    · rw [ih, List.cons_append]

theorem joinWith_newline_cons {ls : List Text} (h : ls ≠ []) (l : Text) :
    joinWith "\n" (l :: ls) = l ++ '\n' :: joinWith "\n" ls := by
  rw [joinWith_cons h, List.append_assoc]
  rfl

theorem unindent_joinWith (ls : List Text) : unindent (joinWith "\n" ls) = joinWith "\n" (ls.map unindent) := by
  induction ls with
  | nil => rfl
  | cons l ls ih =>
    by_cases hls : ls = []
    · rw [hls]
      rfl
    · rw [joinWith_newline_cons hls, unindent, unindentFrom_append_newline, ih, List.map_cons,
        joinWith_newline_cons (mt List.map_eq_nil_iff.mp hls)]
      rfl

theorem unindent_unindented (l : Text) : unindent (unindented l) = unindent l := by
  induction l with
  | nil => rfl
  | cons c l ih =>
    by_cases hc : isIndent c = true
    · rw [unindented, List.dropWhile_cons_of_pos hc, unindent, unindent, unindentFrom_cons_of_isIndent hc]
      exact ih
    · rw [unindented, List.dropWhile_cons_of_neg hc]

/-! ### Trimmed texts -/

theorem trimStart_unindentFrom (atFront' : Bool) (t : Text) :
    trimStart (unindentFrom atFront t) = unindentFrom atFront' (trimStart t) := by
  induction t generalizing atFront with
  | nil => rfl
  | cons c t ih =>
    by_cases hc : isBlank c = true
    · rw [trimStart_cons_of_isBlank hc]
      rcases unindentFrom_cons_cases atFront c t with ⟨-, h⟩ | h
      · rw [h, ih]
      · rw [h, trimStart_cons_of_isBlank hc, ih]
    · -- What is no blank is kept wherever it stands.
      have hindent : isIndent c = false := Bool.eq_false_iff.mpr fun h => hc (isBlank_of_isIndent h)
      rw [Bool.not_eq_true] at hc
      rw [trimStart_cons_of_not_isBlank hc, unindentFrom_cons (Or.inr hindent), unindentFrom_cons (Or.inr hindent),
        trimStart_cons_of_not_isBlank hc]

theorem trimEnd_cons_eq_nil_iff : trimEnd (c :: t) = [] ↔ isBlank c = true ∧ trimEnd t = [] := by
  rw [trimEnd_cons]
  split
  · next h => exact iff_of_true rfl h
  · next h => exact iff_of_false (List.cons_ne_nil _ _) h

theorem trimEnd_unindentFrom_eq_nil_iff : trimEnd (unindentFrom atFront t) = [] ↔ trimEnd t = [] := by
  induction t generalizing atFront with
  | nil => exact Iff.rfl
  | cons c t ih =>
    rw [trimEnd_cons_eq_nil_iff]
    rcases unindentFrom_cons_cases atFront c t with ⟨hc, h⟩ | h
    · rw [h, ih, and_iff_right (isBlank_of_isIndent hc)]
    · rw [h, trimEnd_cons_eq_nil_iff, ih]

theorem trimEnd_unindentFrom (t : Text) : trimEnd (unindentFrom atFront t) = unindentFrom atFront (trimEnd t) := by
  induction t generalizing atFront with
  | nil => rfl
  | cons c t ih =>
    by_cases hnil : isBlank c = true ∧ trimEnd t = []
    · have hall : trimEnd (c :: t) = [] := by rw [trimEnd_cons, if_pos hnil]
      rw [hall, trimEnd_unindentFrom_eq_nil_iff.mpr hall]
      rfl
    · rw [trimEnd_cons c t, if_neg hnil]
      -- `c` is taken away or kept, as it is before the trimmed rest.
      by_cases hfront : atFront = false ∨ isIndent c = false
      · have hkept : ¬(isBlank c = true ∧ trimEnd (unindentFrom (c == '\n') t) = []) := by
          rwa [trimEnd_unindentFrom_eq_nil_iff]
        rw [unindentFrom_cons hfront, unindentFrom_cons hfront, trimEnd_cons, if_neg hkept, ih]
      · rw [not_or, Bool.not_eq_false, Bool.not_eq_false] at hfront
        rw [hfront.1, unindentFrom_cons_of_isIndent hfront.2, unindentFrom_cons_of_isIndent hfront.2, ih]

theorem trim_unindent (t : Text) : trim (unindent t) = unindent (trim t) := by
  rw [trim, unindent, trimStart_unindentFrom true, trimEnd_unindentFrom, trim, unindent]

theorem trim_unindented (l : Text) : trim (unindented l) = trim l := by
  have hsplit : l.takeWhile isIndent ++ unindented l = l := List.takeWhile_append_dropWhile
  have htrim : trim (l.takeWhile isIndent ++ unindented l) = trim (unindented l) :=
    trim_append_of_isBlank (fun c hc => isBlank_of_isIndent (List.mem_takeWhile_imp hc)) _
  rw [← htrim, hsplit]

end EndpointAtlas.Text
