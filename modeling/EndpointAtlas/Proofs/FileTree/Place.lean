import EndpointAtlas.Proofs.FileTree.Parent
import EndpointAtlas.Proofs.Keyed
import Mathlib.Data.List.Nodup

/-! Places that paths tell. A tree without links is climbed as its paths are written, so a path tells its
    place before anything is there (`placeOf`); whatever is found at the end of the path is found at that
    place. -/

namespace EndpointAtlas

/-- The place that one piece of a path leads to from another. -/
def Place.follow (p : Place) (piece : Bytes) : Place :=
  if piece = [dot] then p else if piece = [dot, dot] then p.dropLast else p ++ [piece]

namespace FileTree
open Text

variable {t u : FileTree} {path name : Bytes} {p q : Place}

/-- The place that a path tells. -/
def placeOf (t : FileTree) (path : Bytes) : Place := (pieces path).foldl Place.follow (t.origin path)

/-- The content of the file at a place, if there is a file. -/
def content? (t : FileTree) (p : Place) : Option Bytes :=
  match t.get? p with
  | some (.file c) => some c
  | _ => none

/-- The file at a place, if there is one: its content, or that it is locked. -/
def file? (t : FileTree) (p : Place) : Option Entry := (t.get? p).filter (· ≠ .directory)

theorem file?_eq_some_iff {e : Entry} : t.file? p = some e ↔ t.get? p = some e ∧ e ≠ .directory := by
  simp [file?, Option.filter_eq_some_iff]

theorem content?_eq_some_iff {c : Bytes} : t.content? p = some c ↔ t.get? p = some (.file c) := by
  unfold content?
  split
  · next h => simp [h]
  · next h =>
    constructor
    · intro hc
      cases hc
    · exact fun hc => absurd hc (h c)

theorem content?_congr (h : t.file? p = u.file? p) : t.content? p = u.content? p := by
  have hfile : ∀ (v : FileTree) c, v.content? p = some c ↔ v.file? p = some (.file c) := fun v c => by
    rw [content?_eq_some_iff, file?_eq_some_iff, and_iff_left (by simp)]
  exact Option.ext fun c => by rw [hfile, hfile, h]

theorem placeOf_congr (h : u.current = t.current) (path : Bytes) : u.placeOf path = t.placeOf path := by
  unfold placeOf origin
  rw [h]

/-! ### Following a path leads to its place -/

theorem follow_of_not_isDots (h : ¬IsDots name) (p : Place) : Place.follow p name = p ++ [name] := by
  unfold Place.follow
  rw [if_neg fun hd => h (Or.inl hd), if_neg fun hd => h (Or.inr hd)]

theorem follow_of_enter (h : t.enter p name = .ok q) : Place.follow p name = q := by
  by_cases hdots : IsDots name
  · rcases hdots with rfl | rfl <;> exact Except.ok.inj h
  · obtain ⟨-, rfl⟩ := (enter_eq_ok_iff hdots).mp h
    exact follow_of_not_isDots hdots p

theorem follow_of_walk {names : List Bytes} (h : t.walk p names = .ok q) : names.foldl Place.follow p = q := by
  induction names using List.reverseRecOn generalizing q with
  | nil => exact Except.ok.inj h
  | append_singleton names name ih =>
    obtain ⟨r, hr, henter⟩ := walk_concat_eq_ok.mp h
    rw [List.foldl_append, ih hr]
    exact follow_of_enter henter

theorem placeOf_of_target {parent : Place} {slashed : Bool} (h : t.target path = .ok (.named parent name slashed)) :
    t.placeOf path = parent ++ [name] := by
  obtain ⟨names, hpieces, hdots, hwalk, -⟩ := (target_eq_named_iff (isFollowed_of_target h)).mp h
  rw [placeOf, hpieces, List.foldl_append, follow_of_walk hwalk]
  exact follow_of_not_isDots hdots parent

/-! ### Trees -/

/-- Bytes that can name an entry of a directory. -/
def IsName (n : Bytes) : Prop := n ≠ [] ∧ slash ∉ n ∧ ¬IsDots n

instance (n : Bytes) : Decidable (IsDots n) := inferInstanceAs (Decidable (_ ∨ _))

instance (n : Bytes) : Decidable (IsName n) := inferInstanceAs (Decidable (_ ∧ _))

/-- The entries make up a tree: each place is listed once and under names, whatever is listed lies in a
    directory, and the current directory is one. -/
structure IsTree (t : FileTree) : Prop where
  once : (Keyed.keys t.entries).Nodup
  closed : ∀ p ∈ Keyed.keys t.entries, t.get? p.dropLast = some .directory
  named : ∀ p ∈ Keyed.keys t.entries, ∀ n ∈ p, IsName n
  current : t.get? t.current = some .directory

theorem mem_keys_of_get? {e : Entry} (hne : p ≠ []) (h : t.get? p = some e) : p ∈ Keyed.keys t.entries := by
  rw [Keyed.mem_keys_iff_isSome]
  cases p with
  | nil => exact absurd rfl hne
  | cons n p => exact Option.isSome_iff_exists.mpr ⟨e, h⟩

namespace IsTree

theorem get?_parent (ht : t.IsTree) {e : Entry} (h : t.get? (p ++ [name]) = some e) : t.get? p = some .directory := by
  have hparent := ht.closed _ (mem_keys_of_get? (by simp) h)
  rwa [List.dropLast_concat] at hparent

theorem get?_dropLast (ht : t.IsTree) (h : t.get? p = some .directory) : t.get? p.dropLast = some .directory := by
  rcases List.eq_nil_or_concat' p with rfl | ⟨q, n, rfl⟩
  · rfl
  · rw [List.dropLast_concat]
    exact ht.get?_parent h

theorem names_of_get? (ht : t.IsTree) {e : Entry} (h : t.get? p = some e) : ∀ n ∈ p, IsName n := by
  rcases List.eq_nil_or_concat' p with rfl | ⟨q, n, rfl⟩
  · simp
  · exact ht.named _ (mem_keys_of_get? (by simp) h)

theorem get?_of_enter (ht : t.IsTree) (hp : t.get? p = some .directory) (h : t.enter p name = .ok q) :
    t.get? q = some .directory := by
  by_cases hdots : IsDots name
  · rcases hdots with rfl | rfl
    · cases h
      exact hp
    · cases h
      exact ht.get?_dropLast hp
  · obtain ⟨hlook, rfl⟩ := (enter_eq_ok_iff hdots).mp h
    exact (lookup_eq_ok_iff.mp hlook).2

/-- Every walk that begins in a directory stays in directories. -/
theorem get?_of_walk (ht : t.IsTree) (hp : t.get? p = some .directory) {names : List Bytes}
    (h : t.walk p names = .ok q) : t.get? q = some .directory := by
  induction names using List.reverseRecOn generalizing q with
  | nil =>
    cases h
    exact hp
  | append_singleton names name ih =>
    obtain ⟨r, hr, henter⟩ := walk_concat_eq_ok.mp h
    exact ht.get?_of_enter (ih hr) henter

theorem get?_origin (ht : t.IsTree) (path : Bytes) : t.get? (t.origin path) = some .directory := by
  unfold origin
  split
  · rfl
  · exact ht.current

/-- What is put under a name into a directory becomes part of the tree, unless it takes the place of one. -/
theorem put (ht : t.IsTree) {e : Entry} (hp : t.get? p = some .directory) (hname : IsName name)
    (hplace : t.get? (p ++ [name]) ≠ some .directory) : (t.put (p ++ [name]) e).IsTree := by
  have hne : p ++ [name] ≠ [] := by simp
  have hkeep : ∀ q, t.get? q = some .directory → (t.put (p ++ [name]) e).get? q = some .directory := by
    intro q hq
    rw [get?_put t e hne, if_neg, hq]
    rintro rfl
    exact hplace hq
  have hkeys : ∀ q ∈ Keyed.keys (t.put (p ++ [name]) e).entries, q ∈ Keyed.keys t.entries ∨ q = p ++ [name] := by
    intro q hq
    rw [FileTree.put, Keyed.keys_set] at hq
    split at hq
    · exact Or.inl hq
    · exact (List.mem_append.mp hq).imp_right List.mem_singleton.mp
  refine ⟨?_, fun q hq => ?_, fun q hq n hn => ?_, hkeep _ ht.current⟩
  · rw [FileTree.put, Keyed.keys_set]
    split
    · exact ht.once
    · next hfresh =>
      rw [← List.concat_eq_append]
      exact List.Nodup.concat hfresh ht.once
  · rcases hkeys q hq with hq | rfl
    · exact hkeep _ (ht.closed q hq)
    · rw [List.dropLast_concat]
      exact hkeep _ hp
  · rcases hkeys q hq with hq | rfl
    · exact ht.named q hq n hn
    · rcases List.mem_append.mp hn with hn | hn
      · exact ht.names_of_get? hp n hn
      · rw [List.mem_singleton.mp hn]
        exact hname

end IsTree

end FileTree

end EndpointAtlas
