import EndpointAtlas.Atlas
import EndpointAtlas.Text.Blank

/-!
# Settings

What a run has to know, and the checks that its settings have to pass before it starts. The checks come
in a fixed order, and the first that fails is the one that is told. -/

namespace EndpointAtlas

/-- The settings of a run. -/
structure Settings where
  northboundRoot : Text
  southboundRoot : Text
  outputPath : Text
  /-- The extension of source files, without its dot. -/
  extension : Text := "rb"
  /-- Whether source trees are read in the order of names. -/
  sorted : Bool := false
  /-- The deepest indentation at which an `end` closes a resource. -/
  popIndent : Nat := 4
  documents : DocumentNames := {}
  /-- Whether the run tells what it takes from the machine. -/
  monitoring : Bool := false
  deriving DecidableEq, Repr

/-- The greatest indentation that may be set. -/
def maxPopIndent : Nat := 16

namespace Settings

/-- A path has to be there and free of NUL. -/
def checkPath (field value : Text) : Except Fault Unit :=
  if value = [] then .error (.invalidValue field value "Path cannot be empty")
  else if '\x00' ∈ value then .error (.invalidValue field value "Path contains null bytes")
  else .ok ()

/-- A value has to say something. -/
def checkNonBlank (field value : Text) : Except Fault Unit :=
  if Text.trim value = [] then .error (.invalidValue field value "Value cannot be empty or whitespace-only")
  else .ok ()

/-- An extension has to say something and comes without its dot. -/
def checkExtension (field value : Text) : Except Fault Unit := do
  checkNonBlank field value
  if Text.startsWith ['.'] value then
    throw (.invalidValue field value "Extension must be given without the leading dot")

/-- A number has to lie between two others. -/
def checkRange (field : Text) (value min max : Int) : Except Fault Unit :=
  if value < min ∨ max < value then
    .error (.invalidValue field (Text.ofInt value)
      ("Value must be between " ++ Text.ofInt min ++ " and " ++ Text.ofInt max))
  else .ok ()

/-- Document names have to say something and to differ from those before them. -/
def checkNames (earlier : List Text) : List (Text × Text) → Except Fault Unit
  | [] => .ok ()
  | (field, name) :: names => do
    checkNonBlank field name
    if name ∈ earlier then throw (.invalidValue field name "Output file names must be distinct")
    checkNames (name :: earlier) names

theorem checkNonBlank_eq_ok_iff {field value : Text} :
    checkNonBlank field value = .ok () ↔ Text.trim value ≠ [] := by
  unfold checkNonBlank
  split <;> simp_all

/-- Names pass if each says something and no two of them, nor one and an earlier one, are the same. -/
theorem checkNames_eq_ok_iff {earlier : List Text} {names : List (Text × Text)} :
    checkNames earlier names = .ok () ↔
      (∀ p ∈ names, Text.trim p.2 ≠ []) ∧ (names.map (·.2)).Nodup ∧ ∀ p ∈ names, p.2 ∉ earlier := by
  induction names generalizing earlier with
  | nil => simp [checkNames]
  | cons p names ih =>
    obtain ⟨field, name⟩ := p
    by_cases blank : Text.trim name = []
    · simp [checkNames, checkNonBlank, blank, bind, Except.bind]
    · by_cases seen : name ∈ earlier
      · simp [checkNames, checkNonBlank, blank, seen, bind, Except.bind, throw, throwThe, MonadExceptOf.throw]
      · have rest : checkNames earlier ((field, name) :: names) = checkNames (name :: earlier) names := by
          simp [checkNames, checkNonBlank, blank, seen, bind, Except.bind]
        rw [rest, ih]
        constructor
        · rintro ⟨said, apart, fresh⟩
          refine ⟨?_, ?_, ?_⟩
          · rintro p (_ | ⟨_, mem⟩)
            · exact blank
            · exact said p mem
          · refine List.nodup_cons.mpr ⟨fun mem => ?_, apart⟩
            obtain ⟨q, hq, rfl⟩ := List.mem_map.mp mem
            exact fresh q hq List.mem_cons_self
          · rintro p (_ | ⟨_, mem⟩)
            · exact seen
            · exact fun old => fresh p mem (List.mem_cons_of_mem _ old)
        · rintro ⟨said, apart, fresh⟩
          obtain ⟨new, apart⟩ := List.nodup_cons.mp apart
          refine ⟨fun p mem => said p (List.mem_cons_of_mem _ mem), apart, fun p mem old => ?_⟩
          rcases List.mem_cons.mp old with same | old
          · exact new (List.mem_map.mpr ⟨p, mem, same⟩)
          · exact fresh p (List.mem_cons_of_mem _ mem) old

/-- All checks. -/
def check (s : Settings) : Except Fault Unit := do
  checkPath "northbound_root" s.northboundRoot
  checkPath "southbound_root" s.southboundRoot
  checkPath "output_path" s.outputPath
  checkExtension "extension" s.extension
  checkRange "context_pop_indent" s.popIndent 0 maxPopIndent
  checkNames []
    [("output.filenames.northbound", s.documents.northbound),
     ("output.filenames.southbound", s.documents.southbound),
     ("output.filenames.combined", s.documents.combined),
     ("output.filenames.summary", s.documents.summary)]

end Settings

end EndpointAtlas
