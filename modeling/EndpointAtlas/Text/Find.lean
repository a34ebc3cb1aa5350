import EndpointAtlas.Text.Blank
import EndpointAtlas.Text.Letter

/-!
# Reading and finding

A *reader* recognises one pattern at one place of a text: it is told which character stands before the
place and gets the text from there on, and it answers what it read and what follows. A pattern is
looked for from left to right, and the first place where its reader succeeds counts (`find?`); all its
occurrences are those that `find?` meets when it goes on behind the one before (`findAll`).

The readers below are the parts that patterns are made of. Each takes as much as it can; none has to
give anything back, because what may follow a part never begins like the part itself. -/

namespace EndpointAtlas.Text

/-- Recognises one pattern at one place. -/
abbrev Reader (α : Type) := Option Char → Text → Option (α × Text)

/-- The first success of `r`, from left to right. `before` is the character in front of the text. -/
def find? {α : Type} (r : Reader α) (before : Option Char) : Text → Option (α × Text)
  | [] => r before []
  | c :: t =>
    match r before (c :: t) with
    | some found => some found
    | none => find? r (some c) t

/-- All successes of `r` from left to right, none overlapping the one before. `skip` characters still
    belong to the success before the place. -/
def findAll {α : Type} (r : Reader α) (before : Option Char) (skip : Nat) : Text → List α
  | [] => []
  | c :: t =>
    match skip with
    | n + 1 => findAll r (some c) n t
    | 0 =>
      match r before (c :: t) with
      | some (a, rest) => a :: findAll r (some c) (t.length - rest.length) t
      | none => findAll r (some c) 0 t

/-- The first success of `r` in a whole text. -/
def first? {α : Type} (r : Reader α) (t : Text) : Option α := (find? r none t).map (·.1)

/-- All successes of `r` in a whole text. -/
def all {α : Type} (r : Reader α) (t : Text) : List α := findAll r none 0 t

/-- A word may begin here: no word character stands before the place. -/
def startsWord (before : Option Char) : Bool := !before.any isWordChar

/-- A word ends here: no word character follows. -/
def endsWord (t : Text) : Bool := !t.head?.any isWordChar

/-- Reads a run of word characters, at least one. -/
def word? (t : Text) : Option (Text × Text) :=
  match t.takeWhile isWordChar with
  | [] => none
  | w => some (w, t.dropWhile isWordChar)

/-- Reads a run of blanks, at least one, and answers what follows. -/
def blanks? : Text → Option Text
  | [] => none
  | c :: t => if isBlank c then some (trimStart t) else none

/-- Reads up to the first `stop` and over it. -/
def upTo? (stop : Char) : Text → Option (Text × Text)
  | [] => none
  | c :: t => if c = stop then some ([], t) else (upTo? stop t).map fun (s, rest) => (c :: s, rest)

/-- Reads a text between two `q`, which it cannot hold. -/
def quoted? (q : Char) (t : Text) : Option (Text × Text) := do
  let t ← dropLead? [q] t
  upTo? q t

/-- Reads a text between two single or between two double quotes. -/
def anyQuoted? (t : Text) : Option (Text × Text) :=
  match t with
  | '\'' :: rest => upTo? '\'' rest
  | '"' :: rest => upTo? '"' rest
  | _ => none

/-- Refuses an empty reading. -/
def nonempty? (found : Text × Text) : Option (Text × Text) :=
  if found.1.isEmpty then none else some found

/-- Reads the first of several words that the text begins with. -/
def oneOf? {α : Type} (words : List (Text × α)) (t : Text) : Option (α × Text) :=
  words.firstM fun (w, a) => (dropLead? w t).map (a, ·)

theorem upTo?_eq_some_iff {stop : Char} {t s rest : Text} :
    upTo? stop t = some (s, rest) ↔ t = s ++ stop :: rest ∧ stop ∉ s := by
  induction t generalizing s with
  | nil => simp [upTo?]
  | cons c t ih =>
    by_cases h : c = stop
    · subst h
      constructor
      · intro found
        simp only [upTo?, if_true, Option.some.injEq, Prod.mk.injEq] at found
        obtain ⟨rfl, rfl⟩ := found
        simp
      · rintro ⟨split, absent⟩
        cases s with
        | nil => simp_all [upTo?]
        | cons d s =>
          simp only [List.cons_append, List.cons.injEq] at split
          simp [split.1] at absent
    · simp only [upTo?, if_neg h, Option.map_eq_some_iff, Prod.mk.injEq, Prod.exists]
      constructor
      · rintro ⟨u, r, found, rfl, rfl⟩
        obtain ⟨rfl, absent⟩ := ih.mp found
        exact ⟨rfl, by simp [absent, Ne.symm h]⟩
      · rintro ⟨split, absent⟩
        cases s with
        | nil => simp_all
        | cons d s =>
          simp only [List.cons_append, List.cons.injEq] at split
          obtain ⟨rfl, rfl⟩ := split
          exact ⟨s, rest, ih.mpr ⟨rfl, fun mem => absent (List.mem_cons_of_mem _ mem)⟩, rfl, rfl⟩

end EndpointAtlas.Text
