import EndpointAtlas.Text.Find

/-!
# Placeholders

A text may hold placeholders for the values of variables: a name in braces behind a dollar sign. The
text is taken apart once, and what a value holds is never looked at again. -/

namespace EndpointAtlas

/-- A piece of a text with placeholders. -/
inductive Piece where
  | char (c : Char)
  | placeholder (name : Text)
  deriving DecidableEq, Repr

/-- The values of variables; a variable may have none. -/
abbrev Variables := Text → Option Text

/-- The variables of an environment. Its entries are lines with a name, an equals sign and a value, and a
    value is looked up by what its line begins with. -/
def Variables.ofEntries (entries : List (Text × Text)) : Variables := fun name =>
  entries.findSome? fun (key, value) => Text.dropLead? (name ++ ['=']) (key ++ '=' :: value)

namespace Piece

/-- Reads a placeholder. -/
def placeholder? (t : Text) : Option (Text × Text) := do
  let t ← Text.dropLead? ['$', '\x7b'] t
  Text.nonempty? (← Text.upTo? '\x7d' t)

/-- The pieces of a text from left to right. `skip` characters still belong to the placeholder before
    the place. -/
def ofText (skip : Nat) : Text → List Piece
  | [] => []
  | c :: t =>
    match skip with
    | n + 1 => ofText n t
    | 0 =>
      match placeholder? (c :: t) with
      | some (name, rest) => placeholder name :: ofText (t.length - rest.length) t
      | none => char c :: ofText 0 t

/-- A piece as it was written. -/
def toText : Piece → Text
  | char c => [c]
  | placeholder name => '$' :: '\x7b' :: name ++ ['\x7d']

/-- A piece with the value of its variable in its place, if there is one. -/
def fill (vars : Variables) : Piece → Text
  | char c => [c]
  | placeholder name => (vars name).getD (placeholder name).toText

theorem placeholder?_eq_some {t name rest : Text} (h : placeholder? t = some (name, rest)) :
    t = (placeholder name).toText ++ rest := by
  simp only [placeholder?, bind, Option.bind_eq_some_iff, Text.dropLead?_eq_some_iff] at h
  obtain ⟨u, rfl, ⟨s, r⟩, found, kept⟩ := h
  obtain ⟨rfl, _⟩ := Text.upTo?_eq_some_iff.mp found
  have same : (s, r) = (name, rest) := by
    unfold Text.nonempty? at kept
    split at kept
    · cases kept
    · exact Option.some.inj kept
  cases same
  simp [toText]

/-- The pieces, as they were written, make up the text. -/
theorem flatMap_toText_ofText (skip : Nat) (t : Text) : (ofText skip t).flatMap toText = t.drop skip := by
  induction t generalizing skip with
  | nil => simp [ofText]
  | cons c t ih =>
    cases skip with
    | succ n => simp [ofText, ih]
    | zero =>
      cases found : placeholder? (c :: t) with
      | none => simp [ofText, found, ih, toText]
      | some p =>
        obtain ⟨name, rest⟩ := p
        have whole := placeholder?_eq_some found
        have tail : t = '\x7b' :: (name ++ '\x7d' :: rest) := by
          simpa [toText] using (List.cons.inj whole).2
        have behind : t.drop (t.length - rest.length) = rest := by
          have : t.length - rest.length = (('\x7b' :: name) ++ ['\x7d']).length := by
            rw [tail]
            simp
            omega
          rw [this, tail]
          simp
        simp only [ofText, found, List.flatMap_cons, ih, behind, List.drop_zero]
        exact whole.symm

end Piece

/-- The text with the values of its placeholders in their places. -/
def Text.fillPlaceholders (vars : Variables) (t : Text) : Text := (Piece.ofText 0 t).flatMap (·.fill vars)

end EndpointAtlas
