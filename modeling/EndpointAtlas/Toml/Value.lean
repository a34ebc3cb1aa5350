import EndpointAtlas.Keyed
import EndpointAtlas.Text.Basic

/-!
# TOML values

A document is a table of values under keys. How a table came about decides what may still be added to
it, so every table keeps its origin: a table written in braces is closed, a table with a header gets its
keys under that header only, and a table that merely stood on the way to another may still be given a
header of its own.

A word may be built like a number and tell none. It does no harm where nobody looks, so it is a value
too, but not a readable one. -/

namespace EndpointAtlas.Toml

/-- How a table came about. -/
inductive Origin where
  /-- Written in braces. -/
  | inline
  /-- Named on the way to another header. -/
  | implied
  /-- Named by a header. -/
  | headed
  /-- Named by a key with dots. -/
  | dotted
  deriving DecidableEq, Repr

/-- A value. -/
inductive Value where
  | text (t : Text)
  | integer (n : Int)
  | decimal (t : Text)
  /-- A word that is built like a number and tells none. -/
  | unreadable (word : Text)
  | boolean (b : Bool)
  /-- A date, a time of day, or both. -/
  | moment (t : Text)
  /-- An array, which grows by headers in double brackets or is written in brackets. -/
  | array (grows : Bool) (items : List Value)
  | table (origin : Origin) (entries : List (Text × Value))
  deriving Repr

namespace Value

mutual

/-- Whether a value and all values within it can be read. -/
def isReadable : Value → Bool
  | unreadable _ => false
  | array _ items => areReadable items
  | table _ entries => entriesAreReadable entries
  | _ => true

/-- Whether all items of an array can be read. -/
def areReadable : List Value → Bool
  | [] => true
  | v :: items => v.isReadable && areReadable items

/-- Whether all values of a table can be read. -/
def entriesAreReadable : List (Text × Value) → Bool
  | [] => true
  | (_, v) :: entries => v.isReadable && entriesAreReadable entries

end

theorem areReadable_iff {items : List Value} :
    areReadable items = true ↔ ∀ v ∈ items, v.isReadable = true := by
  induction items with
  | nil => simp [areReadable]
  | cons v items ih => simp [areReadable, ih]

theorem entriesAreReadable_iff {entries : List (Text × Value)} :
    entriesAreReadable entries = true ↔ ∀ e ∈ entries, e.2.isReadable = true := by
  induction entries with
  | nil => simp [entriesAreReadable]
  | cons e entries ih =>
    obtain ⟨key, v⟩ := e
    simp [entriesAreReadable, ih]

end Value

/-- Values under their keys. -/
abbrev Table := Keyed Text Value

namespace Table

/-- Changes the table that lies `path` below a table, through the last table of each growing array.
    `passes` says which tables may be entered; a table that is missing is made as `missing`. -/
def below (passes : Origin → Bool) (missing : Origin) (change : Origin → Table → Option Table) :
    List Text → Origin → Table → Option Table
  | [], origin, t => change origin t
  | key :: path, _, t =>
    match Keyed.get? key t with
    | none => do
      let u ← below passes missing change path missing []
      return Keyed.set key (.table missing u) t
    | some (.table origin u) => do
      guard (passes origin)
      let u ← below passes missing change path origin u
      return Keyed.set key (.table origin u) t
    | some (.array true items) =>
      match items.getLast? with
      | some (.table origin u) => do
        let u ← below passes missing change path origin u
        return Keyed.set key (.array true (items.dropLast ++ [.table origin u])) t
      | _ => none
    | some _ => none

/-- Adds a value under a key that is new. -/
def add (key : Text) (v : Value) (t : Table) : Option Table :=
  match Keyed.get? key t with
  | none => some (Keyed.set key v t)
  | some _ => none

/-- Adds a value under a key with dots. Such keys fill only tables that other such keys made. -/
def addDotted (path : List Text) (key : Text) (v : Value) (t : Table) : Option Table :=
  below (fun o => o == .implied || o == .dotted) .dotted
    (fun o u => if path ≠ [] ∧ o ≠ .dotted then none else add key v u) path .headed t

/-- Opens the table of a header and fills it. -/
def openTable (path : List Text) (key : Text) (fill : Table → Option Table) (t : Table) : Option Table :=
  below (· != .inline) .implied
    (fun _ u =>
      match Keyed.get? key u with
      | none => do return Keyed.set key (.table .headed (← fill [])) u
      | some (.table .implied v) => do return Keyed.set key (.table .headed (← fill v)) u
      | some _ => none)
    path .headed t

/-- Adds a table to the growing array of a header and fills it. -/
def appendTable (path : List Text) (key : Text) (fill : Table → Option Table) (t : Table) : Option Table :=
  below (· != .inline) .implied
    (fun _ u =>
      match Keyed.get? key u with
      | none => do return Keyed.set key (.array true [.table .headed (← fill [])]) u
      | some (.array true items) => do
        return Keyed.set key (.array true (items ++ [.table .headed (← fill [])])) u
      | some _ => none)
    path .headed t

end Table

end EndpointAtlas.Toml
