import EndpointAtlas.Program.RouteMapper
import EndpointAtlas.Proofs.SourceTree.Candidates
import EndpointAtlas.Proofs.Text.Bytewise

/-! What becomes of the source files. Each of them is read, or is counted as one that could not be, or lies
    where no directory tells its version: in one whose name is no text, or directly in a root whose path ends in
    no name. A dry run counts the same files, the last ones too. What lies in a directory that cannot be listed is
    met by neither, and such a directory counts as one that could not be read. -/

namespace EndpointAtlas
open Text

/-! ### Versions -/

/-- The name of the directory that a path lies in, as the path spells it. -/
def Path.directoryName? (path : Bytes) : Option Bytes := (ofBytes path).parent?.bind lastName?

/-- The version that a side names after a directory. -/
def Side.versionName (side : Side) (directory : Text) : Text :=
  match side with
  | .northbound => directory
  | .southbound => upper directory

theorem Side.version?_eq (side : Side) (path : Bytes) :
    side.version? path = ((Path.directoryName? path).bind decode?).map side.versionName := by
  unfold version? Path.directoryName?
  cases (Path.ofBytes path).parent? with
  | none => rfl
  | some parent =>
    cases hname : parent.lastName? with
    | none => simp [hname]
    | some name => cases hdecode : decode? name <;> cases side <;> simp [hname, hdecode, versionName]

/-- The directory of a file is the last one on the way down to it, or the one that the root's path ends with. -/
theorem Path.directoryName?_path {root : Bytes} (hroot : root ≠ []) {p : Place} (hp : ∀ n ∈ p, FileTree.IsName n)
    (hne : p ≠ []) : directoryName? (Place.path root p) = p.dropLast.getLast?.or (ofBytes root).lastName? := by
  obtain ⟨front, n, rfl⟩ := (List.eq_nil_or_concat' p).resolve_left hne
  have hparent : (ofBytes (Place.path root (front ++ [n]))).parent? = some (ofBytes root ++ front.map .name) := by
    rw [ofBytes_path hroot hp, List.map_append, ← List.append_assoc, List.map_singleton, parent?, List.getLast?_concat,
      List.dropLast_concat]
  rw [directoryName?, hparent, Option.bind_some, List.dropLast_concat]
  rcases List.eq_nil_or_concat' front with rfl | ⟨front, m, rfl⟩
  · simp
  · rw [List.map_append, ← List.append_assoc, List.map_singleton, lastName?, List.getLast?_concat, List.getLast?_concat]
    rfl

/-- A file without a version: it lies directly in a root whose path ends in no name, such as a dot or the top, or in
    a directory whose name is no text. -/
def IsUnversioned (root : Text) (p : Place) : Prop :=
  ((Path.ofBytes root).lastName? = none ∧ p.length = 1) ∨ p.dropLast.getLast?.map decode? = some none

instance (root : Text) (p : Place) : Decidable (IsUnversioned root p) := inferInstanceAs (Decidable (_ ∨ _))

/-- The root and the names above a file tell its version, unless there is no name among them that is a text. -/
theorem version?_path {root : Text} (hroot : encode root ≠ []) {p : Place} (hp : ∀ n ∈ p, FileTree.IsName n)
    (hne : p ≠ []) (side : Side) : side.version? (p.path root) = none ↔ IsUnversioned root p := by
  obtain ⟨front, n, rfl⟩ := (List.eq_nil_or_concat' p).resolve_left hne
  rw [Side.version?_eq, Path.directoryName?_path hroot hp hne, Option.map_eq_none_iff, IsUnversioned,
    List.dropLast_concat]
  cases hfront : front.getLast? with
  | some name =>
    have hlength : (front ++ [n]).length ≠ 1 := by
      intro h
      obtain rfl : front = [] := List.length_eq_zero_iff.mp (by simpa using h)
      cases hfront
    simp only [hlength, and_false, false_or, Option.some_or, Option.bind_some, Option.map_some, Option.some.injEq]
  | none =>
    obtain rfl := List.getLast?_eq_none_iff.mp hfront
    cases hname : (Path.ofBytes root).lastName? with
    | none => simp
    | some name =>
      -- A root is a text, and so is each name in it.
      have hmem : .name name ∈ Path.ofBytes root := by
        unfold Path.lastName? at hname
        split at hname
        · next hlast =>
          obtain rfl := Option.some.inj hname
          exact List.mem_of_getLast? hlast
        · cases hname
      have hpiece := Path.name_of_mem_ofBytes hmem
      rw [splitOn_encode (d := '/') (by decide) (by decide) root] at hpiece
      obtain ⟨piece, -, rfl⟩ := List.mem_map.mp hpiece
      simp [decode?_encode]

/-! ### Counting the files -/

namespace SourceTree
open FileTree

variable {t : FileTree} {root : Bytes} {side : Side}

/-- Each file is returned, or it is counted, or it has no version. -/
theorem length_eq_add (t : FileTree) (root : Bytes) (side : Side) (l : List Place) :
    l.length = (l.filterMap (sourceFile? t root side)).length + l.countP (isUnreadable t root side) +
      l.countP fun p => side.version? (p.path root) = none := by
  induction l with
  | nil => rfl
  | cons p l ih =>
    rw [List.filterMap_cons, List.countP_cons, List.countP_cons, List.length_cons, ih]
    unfold sourceFile? isUnreadable
    cases side.version? (p.path root) with
    | none =>
      simp
      omega
    | some version =>
      cases t.readText (p.path root) with
      | error e =>
        simp [Except.toOption]
        omega
      | ok text =>
        simp [Except.toOption]
        omega

theorem read_cases (t : FileTree) (root : Bytes) (side : Side) (p : Place) : side.version? (p.path root) = none ∨
    isUnreadable t root side p = true ∨ ∃ f, sourceFile? t root side p = some f := by
  unfold sourceFile? isUnreadable
  cases side.version? (p.path root) with
  | none => exact Or.inl rfl
  | some version =>
    cases t.readText (p.path root) with
    | error e => exact Or.inr (Or.inl rfl)
    | ok text => exact Or.inr (Or.inr ⟨_, rfl⟩)

theorem path_of_sourceFile? {p : Place} {f : SourceFile} (h : sourceFile? t root side p = some f) :
    f.path = p.path root := by
  unfold sourceFile? at h
  simp only [Option.bind_eq_bind, Option.bind_eq_some_iff, Option.pure_def, Option.some.injEq] at h
  obtain ⟨_, -, _, -, rfl⟩ := h
  rfl

/-- A file lies in directories that can all be listed, or below one that a walk meets and cannot list. -/
theorem exists_unlisted (ht : t.IsTree) {place p : Place} (hroot : t.directory? root = some place)
    (hget : t.get? (place ++ p) = some .directory) :
    Place.Opens root p ∨ ∃ d ∈ unlisted t root place, d <+: p := by
  induction p using List.reverseRecOn with
  | nil => exact Or.inl ⟨(directory?_eq_some_iff.mp hroot).1, by simp⟩
  | append_singleton p n ih =>
    have habove : t.get? (place ++ p) = some .directory := by
      rw [← List.append_assoc] at hget
      exact ht.get?_parent hget
    rcases ih habove with hopens | ⟨d, hd, hbelow⟩
    · by_cases hlast : Place.Opens root (p ++ [n])
      · exact Or.inl hlast
      · refine Or.inr ⟨p ++ [n], (mem_unlisted_iff ht hroot).mpr ⟨by simp, hget, ?_, hlast⟩, List.prefix_rfl⟩
        rwa [List.dropLast_concat]
    · exact Or.inr ⟨d, hd, hbelow.trans (List.prefix_append p [n])⟩

end SourceTree

/-- A file with a version that cannot be read as text. -/
def IsUnread (t : FileTree) (root : Text) (p : Place) : Prop :=
  ¬IsUnversioned root p ∧ (t.readText (p.path root)).toOption = none

instance (t : FileTree) (root : Text) (p : Place) : Decidable (IsUnread t root p) := inferInstanceAs (Decidable (_ ∧ _))

open SourceTree FileTree

/-- A dry run counts what a run returns and what it skips, and besides them the files without a version, but not the
    directories that cannot be listed. No other file with the extension is left out, unless it lies below such a
    directory. -/
theorem collect_accounts_for_files (s : Settings) (side : Side) (label : Text) {t : FileTree} (ht : t.IsTree)
    {root : Text} {place : Place} (hroot : t.directory? root = some place) :
    let found := candidates t root place s.extension s.sorted
    let directories := unlisted t root place
    ∃ tree counted, collect t root s.extension side s.sorted = .ok tree ∧
      s.rootOverview t label root = "  " ++ label ++ ": " ++ root ++
        (" (" ++ Text.ofNat counted ++ " ." ++ s.extension ++ " files)") ∧
      (counted + directories.length = tree.files.length + tree.skipped + found.countP fun p => IsUnversioned root p) ∧
      (tree.skipped = directories.length + found.countP fun p => IsUnread t root p) ∧
      ∀ p : Place, p ≠ [] → (t.file? (place ++ p)).isSome → p.HasExtension s.extension →
        IsUnversioned root p ∨ IsUnread t root p ∨ p.path root ∈ tree.files.map (·.path) ∨
          ∃ d ∈ directories, d <+: p := by
  intro found directories
  have hversion : ∀ p ∈ found, side.version? (p.path root) = none ↔ IsUnversioned root p := fun p hp =>
    version?_path (directory?_eq_some_iff.mp hroot).1.nonempty (names_of_mem_candidates ht hp)
      ((mem_candidates ht).mp hp).1.1 side
  have hunread : ∀ p ∈ found, isUnreadable t root side p = true ↔ IsUnread t root p := by
    intro p hp
    rw [isUnreadable, Bool.and_eq_true, Option.isNone_iff_eq_none, Option.isSome_iff_ne_none, Ne, hversion p hp,
      IsUnread]
  have hlength : (candidates t root place s.extension false).length = found.length :=
    (candidates_perm t root place s.extension s.sorted).length_eq.symm
  have hskipped : found.countP (isUnreadable t root side) = found.countP fun p => IsUnread t root p :=
    List.countP_congr fun p hp => by rw [hunread p hp, decide_eq_true_eq]
  have hpassed : (found.countP fun p => side.version? (p.path root) = none) =
      found.countP fun p => IsUnversioned root p :=
    List.countP_congr fun p hp => by rw [decide_eq_true_eq, decide_eq_true_eq, hversion p hp]
  have hcollect : collect t root s.extension side s.sorted = .ok ⟨found.filterMap (sourceFile? t root side),
      directories.length + found.countP (isUnreadable t root side)⟩ :=
    collect_eq_filterMap hroot side s.extension s.sorted
  refine ⟨_, found.length, hcollect, ?_, ?_, ?_, ?_⟩
  · rw [Settings.rootOverview, hroot]
    dsimp only
    rw [hlength]
  · dsimp only
    rw [length_eq_add t root side found, hpassed]
    omega
  · exact congrArg (directories.length + ·) hskipped
  · intro p hne hfile hext
    obtain ⟨e, he⟩ := Option.isSome_iff_exists.mp hfile
    have hget := (file?_eq_some_iff.mp he).1
    obtain ⟨front, n, rfl⟩ := (List.eq_nil_or_concat' p).resolve_left hne
    have habove : t.get? (place ++ front) = some .directory := by
      rw [← List.append_assoc] at hget
      exact ht.get?_parent hget
    rcases exists_unlisted ht hroot habove with hopens | ⟨d, hd, hbelow⟩
    · have hfound : front ++ [n] ∈ found := (mem_candidates_iff ht hroot).mpr ⟨hne, hfile, by
        rwa [List.dropLast_concat], hext⟩
      rcases read_cases t root side (front ++ [n]) with hnone | hunreadable | ⟨f, hf⟩
      · exact Or.inl ((hversion _ hfound).mp hnone)
      · exact Or.inr (Or.inl ((hunread _ hfound).mp hunreadable))
      · refine Or.inr (Or.inr (Or.inl ?_))
        rw [← path_of_sourceFile? hf]
        exact List.mem_map_of_mem (List.mem_filterMap.mpr ⟨_, hfound, hf⟩)
    · exact Or.inr (Or.inr (Or.inr ⟨d, hd, hbelow.trans (List.prefix_append front [n])⟩))

/-- One file is returned; one holds no text and one is locked; one lies beside the directory of the version and one in a
    directory whose name is no text. -/
theorem collect_accounts_below_dot :
    let s : Settings := { northboundRoot := "./", southboundRoot := "./", outputPath := "out" }
    let t : FileTree :=
      ⟨[(["a.rb"], .file []), (["V1"], .directory), (["V1", "b.rb"], .file []), (["V1", "c.rb"], .file [255]),
        (["V1", "d.rb"], .locked), ([[255]], .directory), ([[255], "e.rb"], .file [])], []⟩
    t.IsTree ∧ t.directory? "./" = some [] ∧
      collect t "./" "rb" .northbound false = .ok ⟨[⟨"./V1/b.rb", "V1", "b", []⟩], 2⟩ ∧
      s.rootOverview t "Northbound" "./" = "  Northbound: ./ (5 .rb files)" := by
  intro s t
  have ht : t.IsTree := ⟨by decide, by decide, by decide, by decide⟩
  have hroot : t.directory? "./" = some [] := by decide
  have htree : collect t "./" "rb" .northbound false = .ok ⟨[⟨"./V1/b.rb", "V1", "b", []⟩], 2⟩ := by decide +kernel
  obtain ⟨tree, counted, hcollect, hoverview, hcounted, -⟩ :=
    collect_accounts_for_files s .northbound "Northbound" ht hroot
  obtain rfl := Except.ok.inj (hcollect.symm.trans htree)
  obtain rfl : counted = 5 := hcounted.trans (by decide)
  exact ⟨ht, hroot, htree, hoverview.trans (by decide)⟩

/-- The dry run tells of two files that the run neither returns nor counts: one beside the dot, and one in a directory
    whose name is no text. -/
theorem files_without_version_are_lost :
    let s : Settings := { northboundRoot := ".", southboundRoot := "sb", outputPath := "out" }
    let t : FileTree := ⟨[(["a.rb"], .file []), ([[255]], .directory), ([[255], "b.rb"], .file [])], []⟩
    t.IsTree ∧ t.directory? "." = some [] ∧ collect t "." "rb" .northbound false = .ok ⟨[], 0⟩ ∧
      s.rootOverview t "Northbound" "." = "  Northbound: . (2 .rb files)" := by
  intro s t
  exact ⟨⟨by decide, by decide, by decide, by decide⟩, by decide, by decide +kernel, by decide +kernel⟩

end EndpointAtlas
