import EndpointAtlas.Proofs.FileTree.Below
import EndpointAtlas.Proofs.Keyed
import Mathlib.Data.List.Perm.Subperm
import Mathlib.Data.List.Sort

/-! The files that a source tree is read from. They are the files below its root that have the extension and lie
    in directories that can be listed, each once, so that only the order in which the tree lists its entries is
    left open; and a sorted list has one order only. What becomes of a file is told by its path alone. -/

namespace EndpointAtlas

namespace FileTree
variable {t : FileTree} {root : Bytes} {place p : Place} {e : Entry}

theorem mem_entries_iff (ht : t.IsTree) {q : Place} (hq : q ≠ []) {e : Entry} :
    (q, e) ∈ t.entries ↔ t.get? q = some e := by
  rw [Keyed.mem_iff_get? ht.once]
  cases q with
  | nil => exact absurd rfl hq
  | cons n q => rfl

theorem mem_entriesBelow (ht : t.IsTree) :
    (p, e) ∈ t.entriesBelow place ↔ p ≠ [] ∧ t.get? (place ++ p) = some e := by
  unfold entriesBelow
  rw [List.mem_filterMap]
  constructor
  · rintro ⟨⟨q, d⟩, hmem, h⟩
    dsimp only at h
    split at h
    · next hbelow =>
      cases h
      obtain ⟨hlength, htake⟩ := hbelow
      have hq : place ++ q.drop place.length = q :=
        List.prefix_iff_eq_append.mp (List.prefix_iff_eq_take.mpr htake.symm)
      have hne : q.drop place.length ≠ [] := fun hnil => by
        rw [List.drop_eq_nil_iff] at hnil
        exact absurd hlength (Nat.not_lt_of_le hnil)
      refine ⟨hne, ?_⟩
      rw [hq]
      refine (mem_entries_iff ht fun hnil => ?_).mp hmem
      rw [hnil] at hlength
      exact Nat.not_lt_zero _ hlength
    · cases h
  · rintro ⟨hne, hget⟩
    refine ⟨(place ++ p, e), (mem_entries_iff ht (by simp [hne])).mpr hget, ?_⟩
    dsimp only
    rw [if_pos, List.drop_left]
    refine ⟨?_, List.take_left⟩
    rw [List.length_append]
    exact Nat.lt_add_of_pos_right (List.length_pos_iff.mpr hne)

/-- No place is listed twice. -/
theorem nodup_entriesBelow (ht : t.IsTree) (place : Place) : ((t.entriesBelow place).map (·.1)).Nodup := by
  rw [List.nodup_map_iff_inj_on]
  · rintro ⟨p, e⟩ he ⟨q, d⟩ hd hsame
    obtain rfl : p = q := hsame
    have hget := ((mem_entriesBelow ht).mp he).2
    rw [((mem_entriesBelow ht).mp hd).2] at hget
    rw [Option.some.inj hget]
  · refine List.Nodup.filterMap ?_ (List.Nodup.of_map _ ht.once)
    rintro ⟨q, e⟩ ⟨q', e'⟩ b hb hb'
    simp only [Option.mem_def, Option.ite_none_right_eq_some] at hb hb'
    obtain ⟨⟨-, htake⟩, hb⟩ := hb
    obtain ⟨⟨-, htake'⟩, hb'⟩ := hb'
    cases hb
    obtain ⟨hdrop, rfl⟩ := Prod.mk.inj (Option.some.inj hb')
    rw [← List.take_append_drop place.length q, ← List.take_append_drop place.length q', htake, htake', hdrop]

theorem mem_met (ht : t.IsTree) : (p, e) ∈ t.met root place ↔
    (p ≠ [] ∧ t.get? (place ++ p) = some e) ∧ t.isListed root p.dropLast = true := by
  rw [met, List.mem_filter, mem_entriesBelow ht]

theorem nodup_met (ht : t.IsTree) (root : Bytes) (place : Place) : ((t.met root place).map (·.1)).Nodup :=
  (nodup_entriesBelow ht place).sublist (List.filter_sublist.map _)

end FileTree

namespace SourceTree
open FileTree

variable {t u : FileTree} {root : Bytes} {place p : Place} {extension : Text} {sorted : Bool} {side : Side}

/-! ### Which files are read -/

/-- A sorted tree is read in the order of the walk. -/
theorem candidates_pairwise (t : FileTree) (root : Bytes) (place : Place) (extension : Text) :
    (candidates t root place extension true).Pairwise fun p q => p ≤ q := by
  rw [candidates, if_pos rfl]
  exact List.pairwise_mergeSort' (· ≤ ·) _

theorem mem_candidates (ht : t.IsTree) : p ∈ candidates t root place extension sorted ↔
    (p ≠ [] ∧ (t.file? (place ++ p)).isSome) ∧ t.isListed root p.dropLast = true ∧ p.HasExtension extension := by
  rw [(candidates_perm t root place extension sorted).mem_iff, candidates]
  simp only [Bool.false_eq_true, if_false, List.mem_map, List.mem_filter, Prod.exists, exists_and_right,
    exists_eq_right, mem_met ht, decide_eq_true_eq, Option.isSome_iff_exists, file?_eq_some_iff]
  constructor
  · rintro ⟨e, ⟨⟨hne, hget⟩, hlisted⟩, hfile, hext⟩
    exact ⟨⟨hne, e, hget, hfile⟩, hlisted, hext⟩
  · rintro ⟨⟨hne, e, hget, hfile⟩, hlisted, hext⟩
    exact ⟨e, ⟨⟨hne, hget⟩, hlisted⟩, hfile, hext⟩

theorem nodup_candidates (ht : t.IsTree) (root : Bytes) (place : Place) (extension : Text) (sorted : Bool) :
    (candidates t root place extension sorted).Nodup := by
  rw [(candidates_perm t root place extension sorted).nodup_iff]
  exact (nodup_met ht root place).sublist (List.filter_sublist.map _)

theorem mem_unlisted (ht : t.IsTree) : p ∈ unlisted t root place ↔
    (p ≠ [] ∧ t.get? (place ++ p) = some .directory) ∧ t.isListed root p.dropLast = true ∧
      t.isListed root p = false := by
  simp only [unlisted, List.mem_map, List.mem_filter, Prod.exists, exists_and_right, exists_eq_right, mem_met ht,
    Bool.decide_and, Bool.and_eq_true, decide_eq_true_eq, Bool.not_eq_true']
  constructor
  · rintro ⟨e, ⟨⟨hne, hget⟩, hlisted⟩, rfl, hunlisted⟩
    exact ⟨⟨hne, hget⟩, hlisted, hunlisted⟩
  · rintro ⟨⟨hne, hget⟩, hlisted, hunlisted⟩
    exact ⟨_, ⟨⟨hne, hget⟩, hlisted⟩, rfl, hunlisted⟩

theorem nodup_unlisted (ht : t.IsTree) (root : Bytes) (place : Place) : (unlisted t root place).Nodup :=
  (nodup_met ht root place).sublist (List.filter_sublist.map _)

section Rooted
variable (ht : t.IsTree) (hroot : t.directory? root = some place)
include ht hroot

/-- Whether a file is met depends on the file and on the length of the path to its directory. -/
theorem mem_candidates_iff : p ∈ candidates t root place extension sorted ↔
    p ≠ [] ∧ (t.file? (place ++ p)).isSome ∧ Place.Opens root p.dropLast ∧ p.HasExtension extension := by
  rw [mem_candidates ht, and_assoc]
  refine and_congr_right fun hne => and_congr_right fun hfile => and_congr_left fun _ => ?_
  obtain ⟨e, he⟩ := Option.isSome_iff_exists.mp hfile
  exact isListed_dropLast_iff ht hroot hne (file?_eq_some_iff.mp he).1

theorem mem_unlisted_iff : p ∈ unlisted t root place ↔
    p ≠ [] ∧ t.get? (place ++ p) = some .directory ∧ Place.Opens root p.dropLast ∧ ¬Place.Opens root p := by
  rw [mem_unlisted ht, and_assoc]
  refine and_congr_right fun hne => and_congr_right fun hget => ?_
  have hnames := fun n hn => ht.names_of_get? hget n (List.mem_append_right _ hn)
  rw [isListed_dropLast_iff ht hroot hne hget, ← Bool.not_eq_true, isListed_iff ht hroot hnames, and_iff_left hget]

end Rooted

theorem names_of_mem_candidates (ht : t.IsTree) (h : p ∈ candidates t root place extension sorted) :
    ∀ n ∈ p, IsName n := by
  obtain ⟨e, he⟩ := Option.isSome_iff_exists.mp ((mem_candidates ht).mp h).1.2
  exact fun n hn => ht.names_of_get? (file?_eq_some_iff.mp he).1 n (List.mem_append_right _ hn)

/-- How many directories a walk of the tree meets and cannot list. -/
def unlistedCount (t : FileTree) (root : Bytes) : Nat :=
  (t.directory? root).elim 0 fun place => (unlisted t root place).length

/-! ### What becomes of a file -/

/-- The source file that a file is read as. -/
def sourceFile? (t : FileTree) (root : Bytes) (side : Side) (p : Place) : Option SourceFile := do
  let version ← side.version? (p.path root)
  let text ← (t.readText (p.path root)).toOption
  let stem := (Path.ofBytes (p.path root)).lastName?.map fun name => (splitExtension name).1
  return ⟨p.path root, version, (stem.bind Text.decode?).getD [], Text.unifyLineEnds text⟩

/-- A file with a version that cannot be read as text. -/
def isUnreadable (t : FileTree) (root : Bytes) (side : Side) (p : Place) : Bool :=
  (side.version? (p.path root)).isSome && (t.readText (p.path root)).toOption.isNone

theorem addFile_eq (tree : SourceTree) (p : Place) : addFile t root side tree p =
    ⟨tree.files ++ (sourceFile? t root side p).toList,
      tree.skipped + if isUnreadable t root side p then 1 else 0⟩ := by
  unfold addFile sourceFile? isUnreadable
  dsimp only
  cases side.version? (p.path root) with
  | none => simp
  | some version => cases t.readText (p.path root) <;> simp [Except.toOption]

theorem foldl_addFile_eq (l : List Place) (tree : SourceTree) : l.foldl (addFile t root side) tree =
    ⟨tree.files ++ l.filterMap (sourceFile? t root side), tree.skipped + l.countP (isUnreadable t root side)⟩ := by
  induction l generalizing tree with
  | nil => simp
  | cons p l ih =>
    have hfiles : (sourceFile? t root side p).toList ++ l.filterMap (sourceFile? t root side) =
        (p :: l).filterMap (sourceFile? t root side) := by
      rw [List.filterMap_cons]
      cases sourceFile? t root side p <;> rfl
    rw [List.foldl_cons, ih, addFile_eq, ← hfiles, List.countP_cons, List.append_assoc, Nat.add_assoc,
      Nat.add_comm (List.countP _ l)]

theorem collect_eq_filterMap (hroot : t.directory? root = some place) (side : Side) (extension : Text)
    (sorted : Bool) : collect t root extension side sorted = .ok
      ⟨(candidates t root place extension sorted).filterMap (sourceFile? t root side), (unlisted t root place).length +
        (candidates t root place extension sorted).countP (isUnreadable t root side)⟩ := by
  rw [collect, hroot]
  dsimp only
  rw [foldl_addFile_eq, List.nil_append]

theorem unlisted_of_entriesBelow_eq_nil (h : t.entriesBelow place = []) (root : Bytes) :
    unlisted t root place = [] := by
  rw [unlisted, met, h]
  rfl

/-- Where nothing has the extension, only directories are counted. -/
theorem collect_of_no_sources (ht : t.IsTree) (hroot : t.directory? root = some place)
    (h : ∀ e ∈ t.entriesBelow place, ¬e.1.HasExtension extension) (side : Side) (sorted : Bool) :
    collect t root extension side sorted = .ok ⟨[], (unlisted t root place).length⟩ := by
  have hnone : candidates t root place extension sorted = [] := by
    refine List.eq_nil_iff_forall_not_mem.mpr fun p hp => ?_
    obtain ⟨hne, hfile, -, hext⟩ := (mem_candidates_iff ht hroot).mp hp
    obtain ⟨e, he⟩ := Option.isSome_iff_exists.mp hfile
    exact h (p, e) ((mem_entriesBelow ht).mpr ⟨hne, (file?_eq_some_iff.mp he).1⟩) hext
  rw [collect_eq_filterMap hroot, hnone]
  rfl

/-! ### Two trees with the same sources -/

section Same
variable (ht : t.IsTree) (hu : u.IsTree) (hroot : t.directory? root = some place)
  (hroot' : u.directory? root = some place)
include ht hu hroot hroot'

/-- Trees with the same source files are read in the same order. -/
theorem candidates_eq (h : ∀ p, Place.Opens root p.dropLast → p.HasExtension extension →
    t.file? (place ++ p) = u.file? (place ++ p)) :
    candidates t root place extension true = candidates u root place extension true := by
  have hmem : ∀ p, p ∈ candidates t root place extension true ↔ p ∈ candidates u root place extension true := by
    intro p
    rw [mem_candidates_iff ht hroot, mem_candidates_iff hu hroot']
    exact and_congr_right fun _ => and_congr_left fun ⟨hopens, hext⟩ => by rw [h p hopens hext]
  have hperm := (List.perm_ext_iff_of_nodup (nodup_candidates ht root place extension true)
    (nodup_candidates hu root place extension true)).mpr hmem
  exact List.Perm.eq_of_pairwise (fun _ _ _ _ => List.le_antisymm) (candidates_pairwise t root place extension)
    (candidates_pairwise u root place extension) hperm

/-- A directory that cannot be listed stays so if it stays a directory; there may be more of them. -/
theorem exists_length_unlisted_eq
    (hkeep : ∀ p, t.get? (place ++ p) = some .directory → u.get? (place ++ p) = some .directory) :
    ∃ more, (unlisted u root place).length = (unlisted t root place).length + more ∧
      ((∀ p ∈ unlisted u root place, t.get? (place ++ p) = some .directory) → more = 0) := by
  have hsubset : unlisted t root place ⊆ unlisted u root place := fun p hp => by
    obtain ⟨hne, hget, hlisted⟩ := (mem_unlisted_iff ht hroot).mp hp
    exact (mem_unlisted_iff hu hroot').mpr ⟨hne, hkeep p hget, hlisted⟩
  have hle := (List.Nodup.subperm (nodup_unlisted ht root place) hsubset).length_le
  refine ⟨(unlisted u root place).length - (unlisted t root place).length, by omega, fun hold => ?_⟩
  have hsubset' : unlisted u root place ⊆ unlisted t root place := fun p hp => by
    obtain ⟨hne, -, hlisted⟩ := (mem_unlisted_iff hu hroot').mp hp
    exact (mem_unlisted_iff ht hroot).mpr ⟨hne, hold p hp, hlisted⟩
  have hle' := (List.Nodup.subperm (nodup_unlisted hu root place) hsubset').length_le
  omega

/-- What becomes of a file is the same. -/
theorem read_eq (hp : ∀ n ∈ p, IsName n) (h : t.file? (place ++ p) = u.file? (place ++ p)) (side : Side) :
    sourceFile? t root side p = sourceFile? u root side p ∧ isUnreadable t root side p = isUnreadable u root side p := by
  have htext : (t.readText (p.path root)).toOption = (u.readText (p.path root)).toOption := by
    refine Option.ext fun s => ?_
    rw [toOption_eq_some_iff, toOption_eq_some_iff, readText_path ht hroot hp, readText_path hu hroot' hp,
      content?_congr h]
  unfold sourceFile? isUnreadable
  rw [htext]
  exact ⟨rfl, rfl⟩

end Same

/-- The same files, and `more` that could not be read. -/
def skipping (tree : SourceTree) (more : Nat) : SourceTree := { tree with skipped := tree.skipped + more }

/-- A source tree is read the same from two trees that have its root and its files, but for the directories in it that
    cannot be listed. -/
theorem collect_eq (ht : t.IsTree) (hu : u.IsTree) (hroot : t.directory? root = u.directory? root) {more : Nat}
    (hfile : ∀ place, t.directory? root = some place → ∀ p : Place, Place.Opens root p.dropLast →
      p.HasExtension extension → t.file? (place ++ p) = u.file? (place ++ p))
    (hmore : ∀ place, t.directory? root = some place →
      (unlisted u root place).length = (unlisted t root place).length + more) :
    collect u root extension side true = (collect t root extension side true).map (·.skipping more) := by
  cases hdir : t.directory? root with
  | none =>
    rw [collect, collect, ← hroot, hdir]
    rfl
  | some place =>
    have hdir' : u.directory? root = some place := hroot ▸ hdir
    have hread : ∀ p ∈ candidates t root place extension true, sourceFile? t root side p = sourceFile? u root side p ∧
        isUnreadable t root side p = isUnreadable u root side p := by
      intro p hp
      obtain ⟨-, -, hopens, hext⟩ := (mem_candidates_iff ht hdir).mp hp
      exact read_eq ht hu hdir hdir' (names_of_mem_candidates ht hp) (hfile place hdir p hopens hext) side
    have hcount : (candidates t root place extension true).countP (isUnreadable t root side) =
        (candidates t root place extension true).countP (isUnreadable u root side) :=
      List.countP_congr fun p hp => by rw [(hread p hp).2]
    rw [collect_eq_filterMap hdir, collect_eq_filterMap hdir', ← candidates_eq ht hu hdir hdir' (hfile place hdir),
      ← List.filterMap_congr fun p hp => (hread p hp).1, ← hcount, hmore place hdir, Nat.add_right_comm]
    rfl

end SourceTree

end EndpointAtlas
