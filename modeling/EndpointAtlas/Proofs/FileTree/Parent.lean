import EndpointAtlas.Proofs.FileTree.Walk

/-! The directory that a path ends in. The path without its last part is written anew from its parts, so
    its text need not be a beginning of the path; but it says the same pieces but for single dots, and so
    it leads to the directory in which the path has its last name. -/

namespace EndpointAtlas

namespace Part

theorem ofPiece?_of_dot {piece : Bytes} (h : piece = [] ∨ piece = [dot]) : ofPiece? piece = none := if_pos h

/-- Any other piece is a part that is written like the piece and is not the top. -/
theorem ofPiece?_of_ne {piece : Bytes} (h : ¬(piece = [] ∨ piece = [dot])) :
    ∃ part, ofPiece? piece = some part ∧ part.toBytes = piece ∧ part ≠ .top := by
  unfold ofPiece?
  rw [if_neg h]
  by_cases hup : piece = [dot, dot]
  · exact ⟨.up, if_pos hup, hup.symm, by simp⟩
  · exact ⟨.name piece, if_neg hup, rfl, by simp⟩

theorem ofPiece?_of_not_isDots {name : Bytes} (hne : name ≠ []) (h : ¬FileTree.IsDots name) :
    ofPiece? name = some (.name name) := by
  unfold ofPiece?
  rw [if_neg (not_or.mpr ⟨hne, fun hd => h (Or.inl hd)⟩), if_neg fun hd => h (Or.inr hd)]

end Part

namespace Path

theorem map_toBytes_filterMap (pieces : List Bytes) :
    (pieces.filterMap Part.ofPiece?).map Part.toBytes = (pieces.filter (· ≠ [])).filter (· ≠ [dot]) := by
  induction pieces with
  | nil => rfl
  | cons piece pieces ih =>
    by_cases h : piece = [] ∨ piece = [dot]
    · rw [List.filterMap_cons_none (Part.ofPiece?_of_dot h), ih]
      rcases h with rfl | rfl <;> rfl
    · obtain ⟨part, hpart, htext, -⟩ := Part.ofPiece?_of_ne h
      obtain ⟨hnil, hdot⟩ := not_or.mp h
      rw [List.filterMap_cons_some hpart, List.map_cons, ih, htext, List.filter_cons_of_pos (by simp [hnil]),
        List.filter_cons_of_pos (by simp [hdot])]

theorem top_not_mem_filterMap (pieces : List Bytes) : Part.top ∉ pieces.filterMap Part.ofPiece? := by
  intro h
  obtain ⟨piece, -, hpiece⟩ := List.mem_filterMap.mp h
  by_cases hdot : piece = [] ∨ piece = [dot]
  · rw [Part.ofPiece?_of_dot hdot] at hpiece
    cases hpiece
  · obtain ⟨part, hpart, -, hne⟩ := Part.ofPiece?_of_ne hdot
    exact hne (Option.some.inj (hpart.symm.trans hpiece))

theorem toBytes_of_top_not_mem {p : Path} (h : Part.top ∉ p) :
    p.toBytes = Text.joinWith [slash] (p.map Part.toBytes) := by
  unfold toBytes
  split
  · exact absurd List.mem_cons_self h
  · rfl

/-- The part that tells where the path begins. -/
def lead (path : Bytes) : Path :=
  match Text.splitOn slash path with
  | [] => []
  | first :: pieces => if first = [] ∧ pieces ≠ [] then [.top] else if first = [dot] then [.here] else []

theorem ofBytes_eq (path : Bytes) : ofBytes path = lead path ++ (FileTree.pieces path).filterMap Part.ofPiece? := by
  have hfilter : ∀ raw : List Bytes, (raw.filter (· ≠ [])).filterMap Part.ofPiece? = raw.filterMap Part.ofPiece? := by
    intro raw
    rw [List.filterMap_filter]
    congr 1
    funext piece
    by_cases h : piece = []
    · simp [h, Part.ofPiece?]
    · simp [h]
  unfold ofBytes lead FileTree.pieces
  rw [hfilter]
  cases Text.splitOn slash path with
  | nil => rfl
  | cons first pieces =>
    dsimp only
    split
    · next htop =>
      rw [htop.1]
      rfl
    · split
      · next hdot =>
        rw [hdot]
        rfl
      · rfl

end Path

namespace FileTree
open Text

/-- A join of names that hold no slash does not begin with one. -/
theorem head?_joinWith {names : List Bytes} (h : ∀ n ∈ names, n ≠ [] ∧ slash ∉ n) :
    (joinWith [slash] names).head? ≠ some slash := by
  intro hs
  obtain ⟨t, ht⟩ := List.head?_eq_some_iff.mp hs
  have hne : names ≠ [] := by
    rintro rfl
    cases ht
  have hsplit := splitOn_joinWith hne fun n hn => (h n hn).2
  rw [ht, splitOn, if_pos rfl] at hsplit
  exact (h [] (hsplit ▸ List.mem_cons_self)).1 rfl

theorem mem_pieces {path name : Bytes} (h : name ∈ pieces path) :
    name ∈ splitOn slash path ∧ name ≠ [] ∧ slash ∉ name := by
  obtain ⟨hmem, hne⟩ := List.mem_filter.mp h
  exact ⟨hmem, of_decide_eq_true hne, not_mem_of_mem_splitOn hmem⟩

theorem zero_not_mem_joinWith {path : Bytes} (hp : 0 ∉ path) {names : List Bytes}
    (h : ∀ n ∈ names, n ∈ splitOn slash path) : 0 ∉ joinWith [slash] names := by
  intro hc
  rcases mem_joinWith hc with hc | ⟨n, hn, hc⟩
  · exact absurd (List.mem_singleton.mp hc) (by decide)
  · rw [← joinWith_splitOn slash path] at hp
    exact hp (mem_joinWith_of_mem (h n hn) hc)

theorem pieces_joinWith {names : List Bytes} (h : ∀ n ∈ names, n ≠ [] ∧ slash ∉ n) :
    pieces (joinWith [slash] names) = names := by
  unfold pieces
  cases names with
  | nil => rfl
  | cons n names =>
    rw [splitOn_joinWith (by simp) fun m hm => (h m hm).2]
    exact List.filter_eq_self.mpr fun m hm => decide_eq_true (h m hm).1

theorem lead_cases (path : Bytes) : (∃ t, path = slash :: t ∧ Path.lead path = [.top]) ∨
    path.head? ≠ some slash ∧
      ((∃ ps, splitOn slash path = [dot] :: ps ∧ Path.lead path = [.here]) ∨ Path.lead path = []) := by
  unfold Path.lead
  by_cases hs : path.head? = some slash
  · obtain ⟨t, rfl⟩ := List.head?_eq_some_iff.mp hs
    refine Or.inl ⟨t, rfl, ?_⟩
    rw [splitOn, if_pos rfl]
    exact if_pos ⟨rfl, splitOn_ne_nil slash t⟩
  · refine Or.inr ⟨hs, ?_⟩
    have hpath := joinWith_splitOn slash path
    cases hsplit : splitOn slash path with
    | nil => exact absurd hsplit (splitOn_ne_nil slash path)
    | cons first ps =>
      have htop : ¬(first = [] ∧ ps ≠ []) := by
        rintro ⟨rfl, hps⟩
        rw [hsplit, joinWith_cons hps] at hpath
        exact hs (hpath ▸ rfl)
      dsimp only
      rw [if_neg htop]
      by_cases hdot : first = [dot]
      · exact Or.inl ⟨ps, by rw [hdot], if_pos hdot⟩
      · exact Or.inr (if_neg hdot)

/-- `q` is followed from where `path` is, and it says `names` but for single dots. -/
structure Says (t : FileTree) (path q : Bytes) (names : List Bytes) : Prop where
  followed : IsFollowed q
  origin : t.origin q = t.origin path
  pieces : (pieces q).filter (· ≠ [dot]) = names.filter (· ≠ [dot])

theorem filter_dot_filter_dot (names : List Bytes) :
    (names.filter (· ≠ [dot])).filter (· ≠ [dot]) = names.filter (· ≠ [dot]) :=
  List.filter_eq_self.mpr fun _ hn => (List.mem_filter.mp hn).2

section Parent
variable {path : Bytes} {names : List Bytes} {name : Bytes}

theorem mem_names (hpieces : pieces path = names ++ [name]) {n : Bytes} (hn : n ∈ names) :
    n ∈ splitOn slash path ∧ n ≠ [] ∧ slash ∉ n :=
  mem_pieces (hpieces ▸ List.mem_append_left _ hn)

theorem map_toBytes_names (hpieces : pieces path = names ++ [name]) :
    (names.filterMap Part.ofPiece?).map Part.toBytes = names.filter (· ≠ [dot]) := by
  rw [Path.map_toBytes_filterMap, List.filter_eq_self.mpr fun n hn => decide_eq_true (mem_names hpieces hn).2.1]

/-- A path that is written from names of another path is followed from where that path is. -/
theorem says_joinWith (hp : IsFollowed path) (hs : path.head? ≠ some slash) {said : List Bytes}
    (hne : said ≠ []) (hsub : said.Sublist (splitOn slash path)) (h : ∀ n ∈ said, n ≠ [])
    (hsaid : said.filter (· ≠ [dot]) = names.filter (· ≠ [dot])) (t : FileTree) :
    Says t path (joinWith [slash] said) names := by
  have hnames : ∀ n ∈ said, n ≠ [] ∧ slash ∉ n := fun n hn => ⟨h n hn, not_mem_of_mem_splitOn (hsub.subset hn)⟩
  have hpieces := pieces_joinWith hnames
  refine ⟨⟨zero_not_mem_joinWith hp.nul fun n hn => hsub.subset hn, ?_, ?_⟩, ?_, hpieces.symm ▸ hsaid⟩
  · intro hnil
    rw [hnil] at hpieces
    exact hne hpieces.symm
  · have hle : List.length (joinWith [slash] said) ≤ List.length (joinWith [slash] (splitOn slash path)) :=
      length_joinWith_le hsub
    rw [joinWith_splitOn] at hle
    exact Nat.le_trans hle hp.short
  · rw [origin, origin, if_neg (head?_joinWith hnames), if_neg hs]

theorem says_from_top {u : Bytes} (hp : IsFollowed (slash :: u)) (hpieces : pieces (slash :: u) = names ++ [name])
    (t : FileTree) : Says t (slash :: u) (slash :: joinWith [slash] (names.filter (· ≠ [dot]))) names := by
  have hpu : ∀ v, pieces (slash :: v) = pieces v := fun v => by
    rw [pieces, splitOn, if_pos rfl]
    rfl
  have hmem : ∀ n ∈ names.filter (· ≠ [dot]), n ∈ splitOn slash (slash :: u) ∧ n ≠ [] ∧ slash ∉ n := fun n hn =>
    mem_names hpieces (List.mem_filter.mp hn).1
  refine ⟨⟨?_, by simp, ?_⟩, rfl, ?_⟩
  · intro hnul
    rcases List.mem_cons.mp hnul with hnul | hnul
    · cases hnul
    · exact zero_not_mem_joinWith hp.nul (fun n hn => (hmem n hn).1) hnul
  · have hsub : names.Sublist (pieces u) := by
      rw [← hpu, hpieces]
      exact List.sublist_append_left names [name]
    have hle : List.length (joinWith [slash] (names.filter (· ≠ [dot]))) ≤
        List.length (joinWith [slash] (splitOn slash u)) :=
      length_joinWith_le (List.filter_sublist.trans (hsub.trans List.filter_sublist))
    rw [joinWith_splitOn] at hle
    exact Nat.le_trans (Nat.add_le_add_right hle 1) hp.short
  · rw [hpu, pieces_joinWith fun n hn => (hmem n hn).2, filter_dot_filter_dot]

theorem says_from_here (hp : IsFollowed path) (hs : path.head? ≠ some slash) {ps : List Bytes}
    (hsplit : splitOn slash path = [dot] :: ps) (hpieces : pieces path = names ++ [name]) (t : FileTree) :
    Says t path (joinWith [slash] ([dot] :: names.filter (· ≠ [dot]))) names := by
  have hsub : (names.filter (· ≠ [dot])).Sublist ps := by
    have hdot : (pieces path).filter (· ≠ [dot]) = (ps.filter (· ≠ [])).filter (· ≠ [dot]) := by
      rw [pieces, hsplit]
      rfl
    have hnames : (names.filter (· ≠ [dot])).Sublist ((pieces path).filter (· ≠ [dot])) :=
      (hpieces ▸ List.sublist_append_left names [name]).filter _
    rw [hdot] at hnames
    exact hnames.trans (List.filter_sublist.trans List.filter_sublist)
  refine says_joinWith hp hs (by simp) (hsplit ▸ hsub.cons_cons _) (fun n hn => ?_) ?_ t
  · rcases List.mem_cons.mp hn with rfl | hn
    · simp
    · exact (mem_names hpieces (List.mem_filter.mp hn).1).2.1
  · rw [List.filter_cons_of_neg (by simp), filter_dot_filter_dot]

theorem says_from_name (hp : IsFollowed path) (hs : path.head? ≠ some slash)
    (hpieces : pieces path = names ++ [name]) (hne : names.filter (· ≠ [dot]) ≠ []) (t : FileTree) :
    Says t path (joinWith [slash] (names.filter (· ≠ [dot]))) names := by
  have hsub : names.Sublist (pieces path) := hpieces ▸ List.sublist_append_left names [name]
  exact says_joinWith hp hs hne (List.filter_sublist.trans (hsub.trans List.filter_sublist))
    (fun n hn => (mem_names hpieces (List.mem_filter.mp hn).1).2.1) (filter_dot_filter_dot _) t

/-- The path without its last name says the names before it. -/
theorem says_parent (hp : IsFollowed path) (hpieces : pieces path = names ++ [name])
    (hne : Path.lead path ++ names.filterMap Part.ofPiece? ≠ []) (t : FileTree) :
    Says t path (Path.lead path ++ names.filterMap Part.ofPiece?).toBytes names := by
  have hbody := map_toBytes_names hpieces
  have htop := Path.top_not_mem_filterMap names
  rcases lead_cases path with ⟨u, rfl, hlead⟩ | ⟨hs, ⟨ps, hsplit, hlead⟩ | hlead⟩
  · have htext : (Path.lead (slash :: u) ++ names.filterMap Part.ofPiece?).toBytes =
        slash :: joinWith [slash] (names.filter (· ≠ [dot])) := by
      rw [hlead, ← hbody]
      rfl
    rw [htext]
    exact says_from_top hp hpieces t
  · have htop' : Part.top ∉ [.here] ++ names.filterMap Part.ofPiece? := fun h =>
      htop (List.mem_of_ne_of_mem (by simp) h)
    have htext : (Path.lead path ++ names.filterMap Part.ofPiece?).toBytes =
        joinWith [slash] ([dot] :: names.filter (· ≠ [dot])) := by
      rw [hlead, ← hbody, Path.toBytes_of_top_not_mem htop']
      rfl
    rw [htext]
    exact says_from_here hp hs hsplit hpieces t
  · rw [hlead, List.nil_append] at hne ⊢
    rw [Path.toBytes_of_top_not_mem htop, hbody]
    refine says_from_name hp hs hpieces ?_ t
    rw [← hbody]
    simpa using hne

end Parent

/-- Where a path names an entry of a directory, the path without its last part leads to that directory. -/
theorem directory_of_parent {t : FileTree} {path : Bytes} {parent : Place} {name : Bytes} {slashed : Bool}
    (h : t.target path = .ok (.named parent name slashed)) : ∃ p, (Path.ofBytes path).parent? = some p ∧
      (p ≠ [] → t.find p.toBytes = .ok (parent, .directory) ∧ t.makeDirectory p.toBytes = .error .exists) := by
  have hp := isFollowed_of_target h
  obtain ⟨names, hpieces, hdots, hwalk, -⟩ := (target_eq_named_iff hp).mp h
  have hname : Part.ofPiece? name = some (.name name) :=
    Part.ofPiece?_of_not_isDots (mem_pieces (hpieces ▸ List.mem_append_right _ List.mem_cons_self)).2.1 hdots
  have hparts : Path.ofBytes path = (Path.lead path ++ names.filterMap Part.ofPiece?) ++ [.name name] := by
    rw [Path.ofBytes_eq, hpieces, List.filterMap_append, List.filterMap_cons_some hname, List.append_assoc]
    rfl
  refine ⟨Path.lead path ++ names.filterMap Part.ofPiece?, ?_, fun hne => ?_⟩
  · rw [hparts, Path.parent?, List.getLast?_concat, List.dropLast_concat]
  · obtain ⟨hq, horigin, hsaid⟩ := says_parent hp hpieces hne t
    refine directory_of_walk hq ?_
    rw [horigin, ← walk_filter_dot, hsaid, walk_filter_dot]
    exact hwalk

end FileTree

end EndpointAtlas
