import EndpointAtlas.Proofs.SourceTree.Accounting
import EndpointAtlas.Proofs.SourceTree.Walk
import EndpointAtlas.Proofs.Text.Lines

/-! What is collected from a source tree. Each file is told by itself: its place gives the path and the version, and its
    content the text. So the files of the tree are those that are told, in the order of the walk; those that cannot be
    opened or hold no text are counted, and so are the directories that cannot be listed. -/

namespace EndpointAtlas
open Text

/-- The components of a path, each as its bytes. -/
def Path.components (path : Bytes) : List Bytes := (ofBytes path).map Part.toBytes

namespace SourceTree
open FileTree

/-- A file below the place with the extension, in directories that can all be listed, the last of which the path of the
    file names by a text. -/
structure IsSource (t : FileTree) (place : Place) (root : Bytes) (extension : Text) (p : Place) (directory : Text) :
    Prop where
  below : p ≠ []
  file : (t.file? (place ++ p)).isSome
  listed : Place.Opens root p.dropLast
  extension : p.HasExtension extension
  directory : (Path.directoryName? (p.path root)).bind decode? = some directory

/-- The file at a place below a root can be opened, and its content is the form of `s`. -/
def IsReadable (t : FileTree) (place : Place) (root : Bytes) (p : Place) (s : Text) : Prop :=
  Place.Opens root p ∧ t.content? (place ++ p) = some (encode s)

/-- The stem of the last name of a place, or nothing if it is no text. -/
def baseNameOf (p : Place) : Text := (p.getLast?.bind fun name => decode? (splitExtension name).1).getD []

variable {t : FileTree} {place p : Place} {root : Bytes} {extension directory : Text} {side : Side} {f : SourceFile}

/-! ### File by file -/

theorem baseName_eq (hroot : root ≠ []) (hp : ∀ n ∈ p, IsName n) (hne : p ≠ []) :
    (((Path.ofBytes (p.path root)).lastName?.map fun name => (splitExtension name).1).bind decode?).getD [] =
      baseNameOf p := by
  obtain ⟨front, n, rfl⟩ := (List.eq_nil_or_concat' p).resolve_left hne
  rw [Path.ofBytes_path hroot hp, List.map_append, ← List.append_assoc,
    List.map_singleton, Path.lastName?, List.getLast?_concat, baseNameOf, List.getLast?_concat]
  rfl

section File
variable (ht : t.IsTree) (hroot : t.directory? root = some place) (hp : ∀ n ∈ p, IsName n)
include ht hroot hp

theorem readText_eq_ok_iff_isReadable {s : Text} : t.readText (p.path root) = .ok s ↔ IsReadable t place root p s := by
  rw [readText_path ht hroot hp, IsReadable]
  refine and_congr_right fun _ => ?_
  constructor
  · rintro ⟨c, hc, hs⟩
    rw [hc, decode?_eq_some_iff.mp hs]
  · exact fun hc => ⟨_, hc, decode?_encode s⟩

theorem sourceFile?_eq_some_iff (hne : p ≠ []) : sourceFile? t root side p = some f ↔
    ∃ directory s, (Path.directoryName? (p.path root)).bind decode? = some directory ∧ IsReadable t place root p s ∧
      f.path = p.path root ∧ f.version = side.versionName directory ∧ f.baseName = baseNameOf p ∧ IsUnified s f.text := by
  unfold sourceFile?
  dsimp only
  rw [baseName_eq (directory?_eq_some_iff.mp hroot).1.nonempty hp hne]
  simp only [Side.version?_eq, Option.bind_eq_bind, Option.bind_eq_some_iff, Option.map_eq_some_iff, Option.pure_def,
    Option.some.injEq, toOption_eq_some_iff, readText_eq_ok_iff_isReadable ht hroot hp, isUnified_iff]
  constructor
  · rintro ⟨_, ⟨directory, hdirectory, rfl⟩, s, hs, rfl⟩
    exact ⟨directory, s, hdirectory, hs, rfl, rfl, rfl, rfl⟩
  · rintro ⟨directory, s, hdirectory, hs, h1, h2, h3, h4⟩
    refine ⟨_, ⟨directory, hdirectory, rfl⟩, s, hs, ?_⟩
    cases f
    simp_all

theorem isUnreadable_iff : isUnreadable t root side p = true ↔
    (∃ directory, (Path.directoryName? (p.path root)).bind decode? = some directory) ∧
      ∀ s, ¬IsReadable t place root p s := by
  simp only [isUnreadable, Side.version?_eq, Bool.and_eq_true, Option.isSome_map, Option.isSome_iff_exists,
    Option.isNone_iff_eq_none, Option.eq_none_iff_forall_ne_some, ne_eq, toOption_eq_some_iff,
    readText_eq_ok_iff_isReadable ht hroot hp]

end File

/-! ### Paths -/

/-- The components of a file are those of the root and then the names below it. -/
theorem components_path (hroot : root ≠ []) (hp : ∀ n ∈ p, IsName n) :
    Path.components (p.path root) = Path.components root ++ p := by
  rw [Path.components, Path.ofBytes_path hroot hp, List.map_append, List.map_map]
  exact congrArg _ (List.map_id p)

/-- The files of a sorted tree stand in the order of the components of their paths. -/
theorem files_pairwise_lt (ht : t.IsTree) (hroot : root ≠ []) (place : Place) (extension : Text) (side : Side) :
    ((candidates t root place extension true).filterMap (sourceFile? t root side)).Pairwise fun f g =>
      Path.components f.path < Path.components g.path := by
  refine List.Pairwise.filterMap _ ?_ (List.Pairwise.and_mem.mp (candidates_pairwise_lt ht root place extension))
  rintro p q ⟨hp, hq, hlt⟩ f hf g hg
  rw [path_of_sourceFile? hf, path_of_sourceFile? hg, components_path hroot (names_of_mem_candidates ht hp),
    components_path hroot (names_of_mem_candidates ht hq)]
  exact List.append_left_lt hlt

/-! ### The whole tree -/

/-- The files that are collected are the files below the root that have the extension, lie in a directory with a name
    that is a text, can be opened and hold a text, each once; the others of them are counted, and so is each directory
    that cannot be listed. A sorted tree comes in the order of the components of the paths, and any other order has the same
    files. That is so for every walk. -/
theorem collect_reads_sources (ht : t.IsTree) (hroot : t.directory? root = some place) (side : Side) (extension : Text)
    (sorted : Bool) : ∃ tree, collect t root extension side sorted = .ok tree ∧
    (∀ f, f ∈ tree.files ↔ ∃ p directory s, IsSource t place root extension p directory ∧ IsReadable t place root p s ∧
      f.path = p.path root ∧ f.version = side.versionName directory ∧ f.baseName = baseNameOf p ∧ IsUnified s f.text) ∧
    (tree.files.map (·.path)).Nodup ∧
    (∃ unreadable directories : List Place, tree.skipped = directories.length + unreadable.length ∧
      (unreadable.Nodup ∧ ∀ p, p ∈ unreadable ↔
        (∃ directory, IsSource t place root extension p directory) ∧ ∀ s, ¬IsReadable t place root p s) ∧
      (directories.Nodup ∧ ∀ p, p ∈ directories ↔ p ≠ [] ∧ t.get? (place ++ p) = some .directory ∧
        Place.Opens root p.dropLast ∧ ¬Place.Opens root p)) ∧
    (sorted = true → tree.files.Pairwise fun f g => Path.components f.path < Path.components g.path) ∧
    (∃ ordered, collect t root extension side true = .ok ordered ∧ tree.files.Perm ordered.files ∧
      tree.skipped = ordered.skipped) ∧
    ∀ links, (∃ visited, t.IsWalk root place links sorted visited) ∧
      ∀ visited, t.IsWalk root place links sorted visited →
        let met := filesAmong t place extension visited
        tree.files.Perm (met.filterMap (sourceFile? t root side)) ∧
        (sorted = true → tree.files = met.filterMap (sourceFile? t root side)) ∧
        tree.skipped = (unlistedAmong t root place visited).length + met.countP (isUnreadable t root side) := by
  have hne : root ≠ [] := (directory?_eq_some_iff.mp hroot).1.nonempty
  have hsorted := candidates_perm_sorted t root place extension sorted
  have horder := files_pairwise_lt ht hne place extension side
  refine ⟨_, collect_eq_filterMap hroot side extension sorted, fun f => ?_, ?_, ?_, ?_, ?_, ?_⟩
  · rw [List.mem_filterMap]
    constructor
    · rintro ⟨p, hmem, hread⟩
      obtain ⟨hp, hfile, hlisted, hext⟩ := (mem_candidates_iff ht hroot).mp hmem
      obtain ⟨directory, s, hdirectory, hs, hf⟩ :=
        (sourceFile?_eq_some_iff ht hroot (names_of_mem_candidates ht hmem) hp).mp hread
      exact ⟨p, directory, s, ⟨hp, hfile, hlisted, hext, hdirectory⟩, hs, hf⟩
    · rintro ⟨p, directory, s, h, hs, hf⟩
      have hmem : p ∈ candidates t root place extension sorted :=
        (mem_candidates_iff ht hroot).mpr ⟨h.below, h.file, h.listed, h.extension⟩
      exact ⟨p, hmem, (sourceFile?_eq_some_iff ht hroot (names_of_mem_candidates ht hmem) h.below).mpr
        ⟨directory, s, h.directory, hs, hf⟩⟩
  · refine (((hsorted.filterMap (sourceFile? t root side)).map (·.path)).nodup_iff).mpr (List.pairwise_map.mpr ?_)
    refine horder.imp fun {f g} hlt heq => ?_
    rw [heq] at hlt
    exact List.lt_irrefl _ hlt
  · refine ⟨(candidates t root place extension sorted).filter (isUnreadable t root side), unlisted t root place, ?_,
      ⟨(nodup_candidates ht root place extension sorted).filter _, fun p => ?_⟩,
      ⟨nodup_unlisted ht root place, fun p => mem_unlisted_iff ht hroot⟩⟩
    · rw [List.countP_eq_length_filter]
    · rw [List.mem_filter]
      constructor
      · rintro ⟨hmem, hunreadable⟩
        obtain ⟨hp, hfile, hlisted, hext⟩ := (mem_candidates_iff ht hroot).mp hmem
        obtain ⟨⟨directory, hdirectory⟩, hs⟩ :=
          (isUnreadable_iff ht hroot (names_of_mem_candidates ht hmem)).mp hunreadable
        exact ⟨⟨directory, hp, hfile, hlisted, hext, hdirectory⟩, hs⟩
      · rintro ⟨⟨directory, h⟩, hs⟩
        have hmem : p ∈ candidates t root place extension sorted :=
          (mem_candidates_iff ht hroot).mpr ⟨h.below, h.file, h.listed, h.extension⟩
        exact ⟨hmem, (isUnreadable_iff ht hroot (names_of_mem_candidates ht hmem)).mpr ⟨⟨directory, h.directory⟩, hs⟩⟩
  · rintro rfl
    exact horder
  · exact ⟨_, collect_eq_filterMap hroot side extension true, hsorted.filterMap _,
      congrArg (_ + ·) (hsorted.countP_eq _)⟩
  · refine fun links => ⟨exists_isWalk t root place links sorted, fun visited hwalk => ?_⟩
    have hmet := filesAmong_perm ht hroot hwalk extension
    refine ⟨(hmet.filterMap _).symm, ?_, ?_⟩
    · rintro rfl
      rw [← filesAmong_eq ht hroot hwalk]
    · rw [(unlistedAmong_perm ht hroot hwalk).length_eq, hmet.countP_eq]

/-- Two directories whose names stand the other way round in the texts of the paths, and one whose name is no text; a
    file that is no text, one that is locked and one whose name is no text; and a link. -/
theorem collect_reads_two_versions :
    let name : Bytes := 255 :: encode ".rb"
    let t : FileTree := ⟨[(["sb"], .directory), (["sb", "v1"], .directory), (["sb", "v1", "b.rb"], .file []),
      (["sb", "v1", "c.rb"], .file [255]), (["sb", "v1", "d.rb"], .locked), (["sb", "v1-b"], .directory),
      (["sb", "v1-b", "a.rb"], .file (encode "x\r\n")), (["sb", "v1-b", name], .file []),
      (["sb", [255]], .directory), (["sb", [255], "e.rb"], .file [])], []⟩
    let place : Place := ["sb"]
    t.IsTree ∧ t.directory? "sb" = some place ∧ ∃ tree, collect t "sb" "rb" .southbound true = .ok tree ∧
      tree = ⟨[⟨"sb/v1/b.rb", "V1", "b", []⟩, ⟨"sb/v1-b/a.rb", "V1-B", "a", "x\n"⟩,
        ⟨encode "sb/v1-b/" ++ name, "V1-B", [], []⟩], 2⟩ ∧
      (tree.files.Pairwise fun f g => Path.components f.path < Path.components g.path) ∧
      ∃ visited, t.IsWalk "sb" place [["v2"]] true visited ∧
        tree.files = (filesAmong t place "rb" visited).filterMap (sourceFile? t "sb" .southbound) := by
  intro name t place
  have ht : t.IsTree := ⟨by decide, by decide, by decide, by decide⟩
  have hroot : t.directory? "sb" = some place := by decide
  have hsame : candidates t "sb" place "rb" true = candidates t "sb" place "rb" false :=
    List.mergeSort_of_pairwise (by decide)
  obtain ⟨tree, hcollect, -, -, -, horder, -, hwalks⟩ := collect_reads_sources ht hroot .southbound "rb" true
  obtain ⟨⟨visited, hvisited⟩, hmet⟩ := hwalks [["v2"]]
  have htree : collect t "sb" "rb" .southbound true = .ok ⟨[⟨"sb/v1/b.rb", "V1", "b", []⟩,
      ⟨"sb/v1-b/a.rb", "V1-B", "a", "x\n"⟩, ⟨encode "sb/v1-b/" ++ name, "V1-B", [], []⟩], 2⟩ := by
    rw [collect_eq_filterMap hroot, hsame]
    decide +kernel
  exact ⟨ht, hroot, tree, hcollect, Except.ok.inj (hcollect.symm.trans htree), horder rfl, visited, hvisited,
    (hmet visited hvisited).2.1 rfl⟩

/-- Two files that hold the empty text, in directories that can all be listed. The path of one as it is spelled from the
    root is one byte too long to be opened, and it is counted; the directory of the other has a name that is no text, and
    it is passed over. -/
theorem files_with_texts_are_not_returned :
    let root : Bytes := encode "sb" ++ List.replicate 4086 slash
    let t : FileTree := ⟨[(["sb"], .directory), (["sb", "v1"], .directory), (["sb", "v1", "ab.rb"], .file (encode [])),
      (["sb", [255]], .directory), (["sb", [255], "e.rb"], .file (encode []))], []⟩
    let place : Place := ["sb"]
    let long : Place := ["v1", "ab.rb"]
    let strange : Place := [[255], "e.rb"]
    t.IsTree ∧ t.directory? root = some place ∧ unlisted t root place = [] ∧
      (∀ p ∈ [long, strange], t.content? (place ++ p) = some (encode []) ∧
        Place.Opens root p.dropLast ∧ p.HasExtension "rb" ∧ (Path.directoryName? (p.path root)).isSome) ∧
      collect t root "rb" .southbound false = .ok ⟨[], 1⟩ := by
  intro root t place long strange
  have ht : t.IsTree := ⟨by decide, by decide, by decide, by decide⟩
  have hlength : root.length = 4088 := by
    rw [List.length_append, List.length_replicate]
    rfl
  have hlast : root.getLast? = some slash := getLast?_append_slashes (encode "sb") 4085
  have hroot : t.directory? root = some place := by
    refine (directory?_append_slashes (by decide) ?_ t).trans (by decide)
    rw [hlength]
    decide
  -- That is all that is to be known of the root; it is too long to be computed with.
  clear_value root
  have hfollowed := (directory?_eq_some_iff.mp hroot).1
  have hv1 : Place.Opens root ["v1"] :=
    (Place.opens_iff_of_slash hfollowed hlast (by decide)).mpr ⟨by decide, by rw [hlength]; decide, by decide⟩
  have hff : Place.Opens root [[255]] :=
    (Place.opens_iff_of_slash hfollowed hlast (by decide)).mpr ⟨by decide, by rw [hlength]; decide, by decide⟩
  have hlong : ¬Place.Opens root long := by
    rw [Place.opens_iff_of_slash hfollowed hlast (by decide), hlength]
    decide
  have hname : ∀ a b : Bytes, IsName a → IsName b → Path.directoryName? (Place.path root [a, b]) = some a := by
    intro a b ha hb
    exact Path.directoryName?_path hfollowed.nonempty (by simp [ha, hb]) (by simp)
  have hbelow : t.entriesBelow place = [([encode "v1"], .directory), (long, .file (encode [])), ([[255]], .directory),
      (strange, .file (encode []))] := by decide
  have hlisted : ∀ e ∈ t.entriesBelow place, t.isListed root e.1.dropLast = true := by
    have htop : t.isListed root [] = true := Option.isSome_of_eq_some hroot
    have hv1' : t.isListed root ["v1"] = true := (isListed_iff ht hroot (by decide)).mpr ⟨hv1, by decide⟩
    have hff' : t.isListed root [[255]] = true := (isListed_iff ht hroot (by decide)).mpr ⟨hff, by decide⟩
    rw [hbelow]
    simp only [List.forall_mem_cons]
    exact ⟨htop, hv1', htop, hff', List.forall_mem_nil _⟩
  have hfound : candidates t root place "rb" false = [long, strange] := by
    have hmet : t.met root place = t.entriesBelow place := List.filter_eq_self.mpr hlisted
    rw [candidates, hmet, hbelow]
    decide
  have hunlisted : unlisted t root place = [] := by
    refine List.eq_nil_iff_forall_not_mem.mpr fun q hq => ?_
    obtain ⟨hne, hget, -, hclosed⟩ := (mem_unlisted_iff ht hroot).mp hq
    have hmem := (mem_entriesBelow ht).mpr ⟨hne, hget⟩
    rw [hbelow] at hmem
    simp only [List.mem_cons, Prod.mk.injEq, List.not_mem_nil, or_false, false_or, and_true, and_false,
      reduceCtorEq] at hmem
    rcases hmem with rfl | rfl
    · exact hclosed hv1
    · exact hclosed hff
  have hlongName := hname "v1" "ab.rb" (by decide) (by decide)
  have hstrangeName := hname [255] "e.rb" (by decide) (by decide)
  have hread : isUnreadable t root .southbound long = true := by
    refine (isUnreadable_iff ht hroot (by decide)).mpr ⟨⟨"v1", ?_⟩, fun s hs => hlong hs.1⟩
    rw [hlongName]
    exact decode?_encode "v1"
  have hversion : Side.southbound.version? (strange.path root) = none := by
    rw [Side.version?_eq, hstrangeName]
    decide
  have hnone : sourceFile? t root .southbound long = none := Option.eq_none_iff_forall_ne_some.mpr fun f hf => by
    obtain ⟨_, s, -, hs, -⟩ := (sourceFile?_eq_some_iff ht hroot (by decide) (by decide)).mp hf
    exact hlong hs.1
  have hnone' : sourceFile? t root .southbound strange = none := by
    rw [sourceFile?, hversion]
    rfl
  have hpassed : ¬isUnreadable t root .southbound strange = true := by
    rw [isUnreadable, hversion]
    exact Bool.false_ne_true
  refine ⟨ht, hroot, hunlisted, ?_, ?_⟩
  · simp only [List.forall_mem_cons]
    exact ⟨⟨by decide, hv1, by decide, Option.isSome_of_eq_some hlongName⟩,
      ⟨by decide, hff, by decide, Option.isSome_of_eq_some hstrangeName⟩, List.forall_mem_nil _⟩
  · rw [collect_eq_filterMap hroot, hfound, hunlisted, List.filterMap_cons_none hnone, List.filterMap_cons_none hnone',
      List.countP_cons_of_pos hread, List.countP_cons_of_neg hpassed]
    rfl

end SourceTree

end EndpointAtlas
