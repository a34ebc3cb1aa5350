import EndpointAtlas.Proofs.FileTree.Place
import EndpointAtlas.SourceTree

/-! Places below a root, and the paths that spell them. A name that is joined to a path stands behind it as one
    more piece. So the path that spells a place below a root leads to that place, unless it is too long to be
    followed; and whether it is does not depend on the tree. -/

namespace EndpointAtlas

namespace FileTree
open Text

variable {base name : Bytes}

theorem pieces_append (s t : Bytes) : pieces (s ++ slash :: t) = pieces s ++ pieces t := by
  rw [pieces, splitOn_append, List.filter_append, pieces, pieces]

theorem pieces_replicate_slash (n : Nat) : pieces (List.replicate n slash) = [] := by
  induction n with
  | zero => rfl
  | succ n ih =>
    have hslash := pieces_append [] (List.replicate n slash)
    rw [ih] at hslash
    exact hslash

theorem getLast?_append_slashes (base : Bytes) (n : Nat) :
    (base ++ List.replicate (n + 1) slash).getLast? = some slash := by
  rw [List.replicate_succ', ← List.append_assoc, List.getLast?_concat]

theorem joinPath_of_slash (h : name.head? ≠ some slash) (hends : base.getLast? = some slash) :
    joinPath base name = base ++ name := by
  have hbase : base ≠ [] := by
    rintro rfl
    cases hends
  rw [joinPath, joinAt, if_neg (not_or.mpr ⟨h, hbase⟩), if_pos hends]

theorem joinPath_of_not_slash (h : name.head? ≠ some slash) (hbase : base ≠ []) (hends : base.getLast? ≠ some slash) :
    joinPath base name = base ++ slash :: name := by
  rw [joinPath, joinAt, if_neg (not_or.mpr ⟨h, hbase⟩), if_neg hends]

/-- A name that is joined to a path stands behind it as more pieces. -/
theorem joinPath_eq_append (h : name.head? ≠ some slash) (hbase : base ≠ []) :
    ∃ more, joinPath base name = base ++ more ∧ pieces (base ++ more) = pieces base ++ pieces name := by
  by_cases hends : base.getLast? = some slash
  · refine ⟨name, joinPath_of_slash h hends, ?_⟩
    obtain ⟨b, rfl⟩ := List.getLast?_eq_some_iff.mp hends
    have hslash : pieces (b ++ [slash]) = pieces b := (pieces_append b []).trans (List.append_nil _)
    rw [hslash, List.append_assoc]
    exact pieces_append b name
  · exact ⟨slash :: name, joinPath_of_not_slash h hbase hends, pieces_append base name⟩

theorem pieces_joinPath (h : name.head? ≠ some slash) (base : Bytes) :
    pieces (joinPath base name) = pieces base ++ pieces name := by
  by_cases hbase : base = []
  · rw [joinPath, joinAt, if_pos (Or.inr hbase), hbase]
    rfl
  · obtain ⟨more, hjoin, hpieces⟩ := joinPath_eq_append h hbase
    rw [hjoin, hpieces]

theorem head?_joinPath (h : name.head? ≠ some slash) (base : Bytes) :
    (joinPath base name).head? = some slash ↔ base.head? = some slash := by
  cases base with
  | nil =>
    rw [joinPath, joinAt, if_pos (Or.inr rfl)]
    exact iff_of_false h (by simp)
  | cons b base =>
    obtain ⟨more, hjoin, -⟩ := joinPath_eq_append h (List.cons_ne_nil b base)
    rw [hjoin]
    rfl

theorem origin_joinPath (h : name.head? ≠ some slash) (t : FileTree) (base : Bytes) :
    t.origin (joinPath base name) = t.origin base := by
  rw [origin, origin]
  exact if_congr (head?_joinPath h base) rfl rfl

theorem IsName.head? (h : IsName name) : name.head? ≠ some slash := by
  intro hslash
  obtain ⟨t, rfl⟩ := List.head?_eq_some_iff.mp hslash
  exact h.2.1 List.mem_cons_self

theorem pieces_of_isName (h : IsName name) : pieces name = [name] := by
  rw [pieces, splitOn_of_not_mem h.2.1]
  exact List.filter_eq_self.mpr fun n hn => decide_eq_true (List.mem_singleton.mp hn ▸ h.1)

end FileTree

/-! ### Paths of places -/

namespace Place
open FileTree

variable {root : Bytes} {p : Place} {t : FileTree}

theorem path_concat (root : Bytes) (p : Place) (n : Bytes) : (p ++ [n]).path root = joinPath (p.path root) n := by
  rw [path, List.foldl_append]
  rfl

theorem path_append (root : Bytes) (p q : Place) : (p ++ q).path root = q.path (p.path root) := List.foldl_append

theorem pieces_path (hp : ∀ n ∈ p, IsName n) : pieces (p.path root) = pieces root ++ p := by
  induction p using List.reverseRecOn with
  | nil => exact (List.append_nil _).symm
  | append_singleton p n ih =>
    have hn := hp n (by simp)
    rw [path_concat, pieces_joinPath hn.head?, ih fun m hm => hp m (List.mem_append_left _ hm), pieces_of_isName hn,
      List.append_assoc]

theorem origin_path (hp : ∀ n ∈ p, IsName n) (t : FileTree) : t.origin (p.path root) = t.origin root := by
  induction p using List.reverseRecOn with
  | nil => rfl
  | append_singleton p n ih =>
    rw [path_concat, origin_joinPath (hp n (by simp)).head?, ih fun m hm => hp m (List.mem_append_left _ hm)]

/-- A path is spelled before whatever lies below it. -/
theorem path_isPrefix (hroot : root ≠ []) (hp : ∀ n ∈ p, IsName n) : root <+: p.path root := by
  induction p using List.reverseRecOn with
  | nil => exact List.prefix_rfl
  | append_singleton p n ih =>
    have hfront := ih fun m hm => hp m (List.mem_append_left _ hm)
    have hne : path root p ≠ [] := fun hnil => hroot (List.prefix_nil.mp (hnil ▸ hfront))
    obtain ⟨more, hjoin, -⟩ := joinPath_eq_append (hp n (by simp)).head? hne
    rw [path_concat, hjoin]
    exact hfront.trans (List.prefix_append _ _)

/-- The path ends with the last name of the place, and so in no slash. -/
theorem getLast?_path (hp : ∀ n ∈ p, IsName n) (hne : p ≠ []) : (p.path root).getLast? ≠ some slash := by
  obtain ⟨front, n, rfl⟩ := (List.eq_nil_or_concat' p).resolve_left hne
  have hn := hp n (by simp)
  rw [path_concat, joinPath, joinAt]
  have hlast : n.getLast? ≠ some slash := fun h => hn.2.1 (List.mem_of_getLast? h)
  split
  · exact hlast
  · split
    · rwa [List.getLast?_append_of_ne_nil _ hn.1]
    · rwa [List.getLast?_append_of_ne_nil _ (List.cons_ne_nil _ _), List.getLast?_cons_of_ne_nil hn.1]

theorem path_of_not_slash (hroot : root ≠ []) (hends : root.getLast? ≠ some slash) (hp : ∀ n ∈ p, IsName n) :
    p.path root = root ++ p.flatMap ([slash] ++ ·) := by
  induction p generalizing root with
  | nil => exact (List.append_nil root).symm
  | cons n p ih =>
    obtain ⟨hn, hp⟩ := List.forall_mem_cons.mp hp
    have hjoin : joinPath root n = root ++ slash :: n := joinPath_of_not_slash hn.head? hroot hends
    have hlast : (joinPath root n).getLast? ≠ some slash := getLast?_path (List.forall_mem_singleton.mpr hn) (by simp)
    have hrest : Place.path root (n :: p) = Place.path (joinPath root n) p := rfl
    rw [hrest, ih (by rw [hjoin]; simp) hlast hp, hjoin, List.flatMap_cons, List.append_assoc]
    rfl

/-- Below a root that ends in a slash, the names and the slashes between them stand behind the root. -/
theorem path_of_slash (hends : root.getLast? = some slash) (hp : ∀ n ∈ p, IsName n) :
    p.path root = root ++ Text.joinWith [slash] p := by
  cases p with
  | nil => exact (List.append_nil root).symm
  | cons n p =>
    obtain ⟨hn, hp⟩ := List.forall_mem_cons.mp hp
    have hjoin : joinPath root n = root ++ n := joinPath_of_slash hn.head? hends
    have hlast : (joinPath root n).getLast? ≠ some slash := getLast?_path (List.forall_mem_singleton.mpr hn) (by simp)
    rw [Text.joinWith_cons_eq_flatMap, ← List.append_assoc, ← hjoin]
    exact path_of_not_slash (by rw [hjoin]; simp [hn.1]) hlast hp

end Place

/-! ### Parts of paths -/

namespace Path
open Text

variable {base name : Bytes}

/-- The lead of a path is told by what stands before its first slash. -/
theorem lead_append_slash (base s t : Bytes) : lead (base ++ slash :: s) = lead (base ++ slash :: t) := by
  obtain ⟨first, more, hsplit⟩ := List.exists_cons_of_ne_nil (splitOn_ne_nil slash base)
  have hne : ∀ x : Bytes, more ++ splitOn slash x ≠ [] := fun x h =>
    splitOn_ne_nil slash x (List.append_eq_nil_iff.mp h).2
  unfold lead
  rw [splitOn_append, splitOn_append, hsplit]
  dsimp only [List.cons_append]
  simp only [hne, ne_eq, not_false_eq_true, and_true]

theorem lead_append (hbase : base ≠ []) (s : Bytes) : lead (base ++ slash :: s) = lead base := by
  obtain ⟨first, more, hsplit⟩ := List.exists_cons_of_ne_nil (splitOn_ne_nil slash base)
  have hne : more ++ splitOn slash s ≠ [] := fun h => splitOn_ne_nil slash s (List.append_eq_nil_iff.mp h).2
  have hmore : first = [] → more ≠ [] := by
    rintro rfl rfl
    have hjoin := joinWith_splitOn slash base
    rw [hsplit] at hjoin
    exact hbase hjoin.symm
  unfold lead
  rw [splitOn_append, hsplit]
  dsimp only [List.cons_append]
  exact if_congr ⟨fun h => ⟨h.1, hmore h.1⟩, fun h => ⟨h.1, hne⟩⟩ rfl rfl

theorem lead_joinPath (hbase : base ≠ []) (hname : name.head? ≠ some slash) :
    lead (joinPath base name) = lead base := by
  by_cases hends : base.getLast? = some slash
  · rw [FileTree.joinPath_of_slash hname hends]
    obtain ⟨b, rfl⟩ := List.getLast?_eq_some_iff.mp hends
    rw [List.append_assoc]
    exact lead_append_slash b name []
  · rw [FileTree.joinPath_of_not_slash hname hbase hends]
    exact lead_append hbase name

/-- The parts of the root, and then the names. -/
theorem ofBytes_path {root : Bytes} (hroot : root ≠ []) {p : Place} (hp : ∀ n ∈ p, FileTree.IsName n) :
    ofBytes (Place.path root p) = ofBytes root ++ p.map .name := by
  have hlead : lead (Place.path root p) = lead root := by
    induction p using List.reverseRecOn with
    | nil => rfl
    | append_singleton p n ih =>
      have hfront := fun m hm => hp m (List.mem_append_left _ hm)
      have hne : Place.path root p ≠ [] := fun hnil => hroot (List.prefix_nil.mp (hnil ▸ Place.path_isPrefix hroot hfront))
      rw [Place.path_concat, lead_joinPath hne (hp n (by simp)).head?, ih hfront]
  have hnames : p.filterMap Part.ofPiece? = p.map .name := by
    rw [← List.filterMap_eq_map]
    exact List.filterMap_congr fun n hn => Part.ofPiece?_of_not_isDots (hp n hn).1 (hp n hn).2.2
  rw [ofBytes_eq, ofBytes_eq, hlead, Place.pieces_path hp, List.filterMap_append, hnames, List.append_assoc]

theorem name_of_mem_ofBytes {path n : Bytes} (h : .name n ∈ ofBytes path) : n ∈ splitOn slash path := by
  rw [ofBytes_eq] at h
  rcases List.mem_append.mp h with h | h
  · unfold lead at h
    split at h
    · cases h
    · split at h
      · simp at h
      · split at h <;> simp at h
  · obtain ⟨piece, hpiece, hname⟩ := List.mem_filterMap.mp h
    by_cases hdot : piece = [] ∨ piece = [dot]
    · rw [Part.ofPiece?_of_dot hdot] at hname
      cases hname
    · obtain ⟨part, hpart, hbytes, -⟩ := Part.ofPiece?_of_ne hdot
      rw [hpart] at hname
      obtain rfl := Option.some.inj hname
      obtain rfl : n = piece := hbytes
      exact (FileTree.mem_pieces hpiece).1

end Path

/-! ### What lies at the end -/

/-- The path of a place below a root can be followed, whatever is there: neither it nor a name in it is too
    long. -/
structure Place.Opens (root : Bytes) (p : Place) : Prop where
  followed : FileTree.IsFollowed (p.path root)
  names : ∀ n ∈ p, n.length ≤ maxNameLength

/-- What lies on the way to a place can be followed as well. -/
theorem Place.Opens.of_append {root : Bytes} {p q : Place} (h : Place.Opens root (p ++ q)) (hroot : root ≠ [])
    (hnames : ∀ n ∈ p ++ q, FileTree.IsName n) : Place.Opens root p := by
  obtain ⟨hp, hq⟩ := List.forall_mem_append.mp hnames
  have hne : p.path root ≠ [] := fun hnil => hroot (List.prefix_nil.mp (hnil ▸ Place.path_isPrefix hroot hp))
  have hfront : p.path root <+: (p ++ q).path root := Place.path_append root p q ▸ Place.path_isPrefix hne hq
  exact
    { followed :=
        { nul := fun hnul => h.followed.nul (hfront.subset hnul)
          nonempty := hne
          short := Nat.le_trans hfront.length_le h.followed.short }
      names := fun n hn => h.names n (List.mem_append_left q hn) }

theorem Place.opens_iff_of_slash {root : Bytes} {p : Place} (hroot : FileTree.IsFollowed root)
    (hends : root.getLast? = some slash) (hp : ∀ n ∈ p, FileTree.IsName n) : Place.Opens root p ↔
      0 ∉ Text.joinWith [slash] p ∧ root.length + (Text.joinWith [slash] p).length ≤ maxPathLength ∧
        ∀ n ∈ p, n.length ≤ maxNameLength := by
  have hpath := path_of_slash hends hp
  constructor
  · intro h
    have hnul := h.followed.nul
    have hshort := h.followed.short
    rw [hpath] at hnul hshort
    rw [List.length_append] at hshort
    exact ⟨fun hmem => hnul (List.mem_append_right root hmem), hshort, h.names⟩
  · rintro ⟨hnul, hshort, hnames⟩
    refine ⟨?_, hnames⟩
    rw [hpath]
    exact
      { nul := fun hmem => (List.mem_append.mp hmem).elim hroot.nul hnul
        nonempty := List.append_ne_nil_of_left_ne_nil hroot.nonempty _
        short := by rwa [List.length_append] }

namespace FileTree
open Text

variable {t : FileTree} {root path : Bytes} {place p q : Place} {e : Entry} {c : Bytes}

/-- Whatever has something below it is a directory. -/
theorem IsTree.get?_of_append (ht : t.IsTree) (h : t.get? (p ++ q) = some e) (hq : q ≠ []) :
    t.get? p = some .directory := by
  induction q using List.reverseRecOn generalizing e with
  | nil => exact absurd rfl hq
  | append_singleton q n ih =>
    rw [← List.append_assoc] at h
    have hparent := ht.get?_parent h
    by_cases hnil : q = []
    · simpa [hnil] using hparent
    · exact ih hparent hnil

theorem walk_append (t : FileTree) (p : Place) (names more : List Bytes) :
    t.walk p (names ++ more) = t.walk p names >>= fun q => t.walk q more := List.foldlM_append

/-- From a directory, names lead to the directory at the place that they make up. -/
theorem walk_names (ht : t.IsTree) (hplace : t.get? place = some .directory) (hp : ∀ n ∈ p, IsName n) :
    t.walk place p = .ok q ↔
      (∀ n ∈ p, n.length ≤ maxNameLength) ∧ t.get? (place ++ p) = some .directory ∧ q = place ++ p := by
  induction p using List.reverseRecOn generalizing q with
  | nil =>
    rw [List.append_nil]
    constructor
    · intro h
      cases h
      exact ⟨by simp, hplace, rfl⟩
    · rintro ⟨-, -, rfl⟩
      rfl
  | append_singleton p n ih =>
    have ih := fun r => ih (q := r) fun m hm => hp m (List.mem_append_left _ hm)
    have hdots : ¬IsDots n := (hp n (by simp)).2.2
    simp only [walk_concat_eq_ok, ih, enter_eq_ok_iff hdots, lookup_eq_ok_iff, ← List.append_assoc]
    constructor
    · rintro ⟨_, ⟨hlong, -, rfl⟩, ⟨hn, hget⟩, rfl⟩
      exact ⟨List.forall_mem_append.mpr ⟨hlong, by simpa using hn⟩, hget, rfl⟩
    · rintro ⟨hlong, hget, rfl⟩
      obtain ⟨hlong, hn⟩ := List.forall_mem_append.mp hlong
      exact ⟨_, ⟨hlong, ht.get?_parent hget, rfl⟩, ⟨hn n List.mem_cons_self, hget⟩, rfl⟩

theorem IsTree.get?_of_directory? (ht : t.IsTree) (h : t.directory? path = some place) :
    t.get? place = some .directory :=
  ht.get?_of_walk (ht.get?_origin path) (directory?_eq_some_iff.mp h).2

/-- Slashes behind the path of a directory say nothing, as long as they do not make it too long. -/
theorem directory?_append_slashes {base : Bytes} (hbase : base ≠ []) {n : Nat}
    (hlong : (base ++ List.replicate n slash).length ≤ maxPathLength) (t : FileTree) :
    t.directory? (base ++ List.replicate n slash) = t.directory? base := by
  have hpieces : pieces (base ++ List.replicate n slash) = pieces base := by
    cases n with
    | zero => rw [List.replicate_zero, List.append_nil]
    | succ n => rw [List.replicate_succ, pieces_append, pieces_replicate_slash, List.append_nil]
  have horigin : t.origin (base ++ List.replicate n slash) = t.origin base := by
    rw [origin, origin, List.head?_append_of_ne_nil _ hbase]
  have hfollowed : IsFollowed (base ++ List.replicate n slash) ↔ IsFollowed base := by
    constructor
    · exact fun h => ⟨fun hnul => h.nul (List.mem_append_left _ hnul), hbase,
        Nat.le_trans (List.prefix_append _ _).length_le hlong⟩
    · refine fun h => ⟨fun hnul => ?_, fun hnil => hbase (List.append_eq_nil_iff.mp hnil).1, hlong⟩
      rcases List.mem_append.mp hnul with hnul | hnul
      · exact h.nul hnul
      · exact absurd (List.eq_of_mem_replicate hnul) (by decide)
  refine Option.ext fun place => ?_
  rw [directory?_eq_some_iff, directory?_eq_some_iff, hpieces, horigin, hfollowed]

/-- The path of a place below a root leads to that place, and the entry there is what is found. -/
theorem find_path (ht : t.IsTree) (hroot : t.directory? root = some place) (hp : ∀ n ∈ p, IsName n) :
    t.find (p.path root) = .ok (q, e) ↔ p.Opens root ∧ t.get? (place ++ p) = some e ∧ q = place ++ p := by
  obtain ⟨hfollowed, hwalk⟩ := directory?_eq_some_iff.mp hroot
  have hplace := ht.get?_of_directory? hroot
  rcases List.eq_nil_or_concat' p with rfl | ⟨front, n, rfl⟩
  · rw [List.append_nil, hplace, show Place.path root [] = root from rfl, (directory_of_walk hfollowed hwalk).1]
    constructor
    · intro h
      cases h
      exact ⟨⟨hfollowed, by simp⟩, rfl, rfl⟩
    · rintro ⟨-, he, rfl⟩
      cases he
      rfl
  · have hfront : ∀ m ∈ front, IsName m := fun m hm => hp m (List.mem_append_left _ hm)
    by_cases hpath : IsFollowed (Place.path root (front ++ [n]))
    · have hslash : ((Place.path root (front ++ [n])).getLast? == some slash) = false :=
        beq_eq_false_iff_ne.mpr (Place.getLast?_path hp (by simp))
      have htarget : t.target (Place.path root (front ++ [n])) =
          t.walk place front >>= fun parent => .ok (.named parent n false) := by
        rw [target_eq hpath, Place.pieces_path hp, ← List.append_assoc, List.getLast?_concat, List.dropLast_concat,
          Place.origin_path hp, walk_append, hwalk, hslash]
        have hdots : ¬(n = [dot] ∨ n = [dot, dot]) := (hp n (by simp)).2.2
        simp only [if_neg hdots]
        rfl
      cases hparent : t.walk place front with
      | error f =>
        rw [hparent] at htarget
        rw [find, htarget]
        constructor
        · intro h
          cases h
        · rintro ⟨hopens, hget, -⟩
          rw [← List.append_assoc] at hget
          rw [(walk_names ht hplace hfront).mpr ⟨fun m hm => hopens.names m (List.mem_append_left _ hm),
            ht.get?_parent hget, rfl⟩] at hparent
          cases hparent
      | ok r =>
        obtain ⟨hnames, -, rfl⟩ := (walk_names ht hplace hfront).mp hparent
        rw [hparent] at htarget
        rw [find_of_target htarget, lookup_eq_ok_iff, ← List.append_assoc]
        constructor
        · rintro ⟨⟨hn, hget⟩, hq⟩
          exact ⟨⟨hpath, List.forall_mem_append.mpr ⟨hnames, by simpa using hn⟩⟩, hget, hq⟩
        · rintro ⟨hopens, hget, hq⟩
          exact ⟨⟨hopens.names n (by simp), hget⟩, hq⟩
    · constructor
      · intro h
        obtain ⟨end_, htarget, -⟩ := except_bind_eq_ok.mp h
        exact absurd (isFollowed_of_target htarget) hpath
      · rintro ⟨hopens, -⟩
        exact absurd hopens.followed hpath

theorem readText_eq_ok_iff {s : Text} : t.readText path = .ok s ↔ ∃ c, t.read path = .ok c ∧ decode? c = some s := by
  rw [readText, except_bind_eq_ok]
  refine exists_congr fun c => and_congr_right fun _ => ?_
  cases decode? c <;> simp [pure, Except.pure, throw, throwThe, MonadExceptOf.throw]

section Below
variable (ht : t.IsTree) (hroot : t.directory? root = some place) (hp : ∀ n ∈ p, IsName n)
include ht hroot hp

/-- A file below a root is read by the path that spells its place. -/
theorem readText_path {s : Text} : t.readText (p.path root) = .ok s ↔
    p.Opens root ∧ ∃ c, t.content? (place ++ p) = some c ∧ decode? c = some s := by
  simp only [readText_eq_ok_iff, read_eq_ok_iff_find, find_path ht hroot hp, content?_eq_some_iff]
  constructor
  · rintro ⟨c, ⟨_, hopens, hget, -⟩, hs⟩
    exact ⟨hopens, c, hget, hs⟩
  · rintro ⟨hopens, c, hget, hs⟩
    exact ⟨c, ⟨_, hopens, hget, rfl⟩, hs⟩

/-- A directory below a root is listed by the path that spells its place. -/
theorem isListed_iff : t.isListed root p = true ↔ p.Opens root ∧ t.get? (place ++ p) = some .directory := by
  rw [isListed, Option.isSome_iff_exists]
  constructor
  · rintro ⟨q, hq⟩
    obtain ⟨hfollowed, hwalk⟩ := directory?_eq_some_iff.mp hq
    obtain ⟨hopens, hget, -⟩ := (find_path ht hroot hp).mp (directory_of_walk hfollowed hwalk).1
    exact ⟨hopens, hget⟩
  · rintro ⟨hopens, hget⟩
    refine ⟨place ++ p, ?_⟩
    rw [directory?, (find_path ht hroot hp).mpr ⟨hopens, hget, rfl⟩]

end Below

/-- What lies below a root lies in a directory, which can be listed unless its path is too long. -/
theorem isListed_dropLast_iff (ht : t.IsTree) (hroot : t.directory? root = some place) (hne : p ≠ [])
    (hget : t.get? (place ++ p) = some e) : t.isListed root p.dropLast = true ↔ Place.Opens root p.dropLast := by
  obtain ⟨front, n, rfl⟩ := (List.eq_nil_or_concat' p).resolve_left hne
  rw [← List.append_assoc] at hget
  have hdir := ht.get?_parent hget
  rw [List.dropLast_concat, isListed_iff ht hroot fun m hm => ht.names_of_get? hdir m (List.mem_append_right _ hm)]
  exact and_iff_left hdir

end FileTree

end EndpointAtlas
