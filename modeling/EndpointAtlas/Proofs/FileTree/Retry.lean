import EndpointAtlas.Proofs.FileTree.Growth

/-! Writing again where a write failed. The directories that the first try made are there, so the second gets
    as far as the first did and fails as well. Its error is the same but for one case: a path may climb out
    of a directory that the first try had to make and then come upon a file. The first try asks for that
    directory by name and finds that something exists there; the second walks on through the name and finds
    that it is no directory. -/

namespace EndpointAtlas

/-! ### Written paths -/

namespace Part

/-- A part that leads on from a directory. -/
inductive IsStep : Part → Prop
  | up : IsStep .up
  | name {n : Bytes} (h : FileTree.IsName n) : IsStep (.name n)

theorem IsStep.toBytes {x : Part} (h : x.IsStep) : x.toBytes ≠ [] ∧ slash ∉ x.toBytes ∧ x.toBytes ≠ [dot] := by
  cases h with
  | up => decide
  | name h => exact ⟨h.1, h.2.1, fun hd => h.2.2 (Or.inl hd)⟩

theorem isStep_of_ofPiece? {piece : Bytes} {x : Part} (hslash : slash ∉ piece) (h : ofPiece? piece = some x) :
    x.IsStep := by
  unfold ofPiece? at h
  by_cases hdot : piece = [] ∨ piece = [dot]
  · rw [if_pos hdot] at h
    cases h
  · rw [if_neg hdot] at h
    obtain ⟨hne, hdot⟩ := not_or.mp hdot
    by_cases hup : piece = [dot, dot]
    · rw [if_pos hup] at h
      cases h
      exact .up
    · rw [if_neg hup] at h
      cases h
      exact .name ⟨hne, hslash, not_or.mpr ⟨hdot, hup⟩⟩

end Part

namespace Path

/-- `lead` tells where a path begins, and `body` how it goes on. -/
structure IsRoute (lead body : Path) : Prop where
  lead : lead = [] ∨ lead = [.top] ∨ lead = [.here]
  steps : ∀ x ∈ body, x.IsStep

theorem isRoute_ofBytes (path : Bytes) :
    IsRoute (Path.lead path) ((FileTree.pieces path).filterMap Part.ofPiece?) := by
  refine ⟨?_, fun x hx => ?_⟩
  · rcases FileTree.lead_cases path with ⟨-, -, h⟩ | ⟨-, ⟨-, -, h⟩ | h⟩ <;> simp [h]
  · obtain ⟨piece, hpiece, hx⟩ := List.mem_filterMap.mp hx
    exact Part.isStep_of_ofPiece? (FileTree.mem_pieces hpiece).2.2 hx

variable {lead body front : Path} {x : Part}

theorem IsRoute.dropLast (h : IsRoute lead (front ++ [x])) : IsRoute lead front :=
  ⟨h.lead, fun y hy => h.steps y (List.mem_append_left _ hy)⟩

theorem IsRoute.top_not_mem (h : IsRoute lead body) (hlead : lead ≠ [.top]) : Part.top ∉ lead ++ body := by
  intro hmem
  rcases List.mem_append.mp hmem with hmem | hmem
  · rcases h.lead with rfl | rfl | rfl
    · cases hmem
    · exact hlead rfl
    · simp at hmem
  · cases h.steps _ hmem

/-- What is written between slashes. -/
def texts (p : Path) : List Bytes := p.map Part.toBytes

theorem IsRoute.mem_texts (h : IsRoute lead body) {n : Bytes} (hn : n ∈ body.texts) : n ≠ [] ∧ slash ∉ n ∧ n ≠ [dot] := by
  obtain ⟨x, hx, rfl⟩ := List.mem_map.mp hn
  exact (h.steps x hx).toBytes

theorem pieces_cons_slash (t : Bytes) : FileTree.pieces (slash :: t) = FileTree.pieces t := by
  rw [FileTree.pieces, Text.splitOn, if_pos rfl]
  rfl

/-- A written path says its steps, maybe after a dot. -/
theorem IsRoute.pieces_toBytes (h : IsRoute lead body) :
    FileTree.pieces (lead ++ body).toBytes = (if lead = [.here] then [[dot]] else []) ++ body.texts := by
  have hbody : ∀ n ∈ body.texts, n ≠ [] ∧ slash ∉ n := fun n hn => ⟨(h.mem_texts hn).1, (h.mem_texts hn).2.1⟩
  rcases h.lead with rfl | rfl | rfl
  · rw [toBytes_of_top_not_mem (h.top_not_mem (by simp)), if_neg (by simp)]
    exact FileTree.pieces_joinWith hbody
  · rw [if_neg (by simp)]
    exact (pieces_cons_slash _).trans (FileTree.pieces_joinWith hbody)
  · rw [toBytes_of_top_not_mem (h.top_not_mem (by simp)), if_pos rfl]
    refine FileTree.pieces_joinWith fun n hn => ?_
    rcases List.mem_cons.mp hn with rfl | hn
    · decide
    · exact hbody n hn

theorem IsRoute.head?_toBytes (h : IsRoute lead body) :
    (lead ++ body).toBytes.head? = some slash ↔ lead = [.top] := by
  have hbody : ∀ n ∈ body.texts, n ≠ [] ∧ slash ∉ n := fun n hn => ⟨(h.mem_texts hn).1, (h.mem_texts hn).2.1⟩
  rcases h.lead with rfl | rfl | rfl
  · rw [toBytes_of_top_not_mem (h.top_not_mem (by simp))]
    exact iff_of_false (FileTree.head?_joinWith hbody) (by simp)
  · exact iff_of_true rfl rfl
  · rw [toBytes_of_top_not_mem (h.top_not_mem (by simp))]
    refine iff_of_false (FileTree.head?_joinWith fun n hn => ?_) (by simp)
    rcases List.mem_cons.mp hn with rfl | hn
    · decide
    · exact hbody n hn

theorem IsRoute.toBytes_ne_nil (h : IsRoute lead body) (hne : lead ++ body ≠ []) : (lead ++ body).toBytes ≠ [] := by
  intro hnil
  have hpieces := h.pieces_toBytes
  have hstart := h.head?_toBytes
  rw [hnil] at hpieces hstart
  rcases h.lead with rfl | rfl | rfl
  · have hnone : body.map Part.toBytes = [] := hpieces.symm
    exact hne (List.map_eq_nil_iff.mp hnone)
  · cases hstart.mpr rfl
  · cases hpieces

theorem toBytes_cons_of_ne (h : x ≠ .top) (p : Path) :
    toBytes (x :: p) = Text.joinWith [slash] ((x :: p).map Part.toBytes) := by
  cases x with
  | top => exact absurd rfl h
  | _ => rfl

/-- A path is written before its last part. -/
theorem toBytes_concat {p : Path} (hp : p ≠ []) (x : Part) :
    ∃ sep, (p ++ [x]).toBytes = p.toBytes ++ (sep ++ x.toBytes) := by
  have hjoin : ∀ {names : List Bytes}, names ≠ [] →
      Text.joinWith [slash] (names ++ [x.toBytes]) = Text.joinWith [slash] names ++ ([slash] ++ x.toBytes) := by
    intro names hne
    induction names with
    | nil => exact absurd rfl hne
    | cons n names ih =>
      cases names with
      | nil => exact List.append_assoc _ _ _
      | cons m names =>
        rw [List.cons_append, Text.joinWith_cons (by simp), Text.joinWith_cons (by simp), ih (by simp),
          List.append_assoc, List.append_assoc, List.append_assoc]
  obtain ⟨y, p, rfl⟩ := List.exists_cons_of_ne_nil hp
  by_cases hy : y = .top
  · subst hy
    cases p with
    | nil => exact ⟨[], rfl⟩
    | cons z p =>
      refine ⟨[slash], congrArg (slash :: ·) ?_⟩
      rw [List.append_eq, List.map_append]
      exact hjoin (by simp)
  · refine ⟨[slash], ?_⟩
    rw [List.cons_append, toBytes_cons_of_ne hy, toBytes_cons_of_ne hy, ← List.cons_append, List.map_append]
    exact hjoin (by simp)

end Path

namespace FileTree
open Text EndpointAtlas.Path

variable {lead body front : Path} {x : Part} {t u v : FileTree} {p q : Place} {e e' : FileError}

theorem isFollowed_front (h : IsRoute lead (front ++ [x])) (hp : IsFollowed (lead ++ (front ++ [x])).toBytes)
    (hne : lead ++ front ≠ []) : IsFollowed (lead ++ front).toBytes := by
  rw [← List.append_assoc] at hp
  obtain ⟨sep, htext⟩ := toBytes_concat hne x
  rw [htext] at hp
  refine ⟨fun hnul => hp.nul (List.mem_append_left _ hnul), h.dropLast.toBytes_ne_nil hne, ?_⟩
  have hshort := hp.short
  rw [List.length_append] at hshort
  exact Nat.le_trans (Nat.le_add_right _ _) hshort

/-- Where a written path begins. -/
def start (t : FileTree) (lead : Path) : Place := if lead = [.top] then [] else t.current

theorem origin_toBytes (h : IsRoute lead body) (t : FileTree) : t.origin (lead ++ body).toBytes = t.start lead := by
  rw [origin, start]
  exact if_congr h.head?_toBytes rfl rfl

theorem walk_toBytes (h : IsRoute lead body) (t : FileTree) (p : Place) :
    t.walk p (pieces (lead ++ body).toBytes) = t.walk p body.texts := by
  rw [h.pieces_toBytes]
  split
  · rfl
  · rfl

theorem directory?_toBytes (h : IsRoute lead body) (hp : IsFollowed (lead ++ body).toBytes) :
    t.directory? (lead ++ body).toBytes = some q ↔ t.walk (t.start lead) body.texts = .ok q := by
  rw [directory?_eq_some_iff, origin_toBytes h, walk_toBytes h]
  exact and_iff_right hp

theorem exists_pieces_concat (h : IsRoute lead (front ++ [x])) (t : FileTree) : ∃ names,
    pieces (lead ++ (front ++ [x])).toBytes = names ++ [x.toBytes] ∧
      t.walk (t.origin (lead ++ (front ++ [x])).toBytes) names = t.walk (t.start lead) front.texts := by
  refine ⟨(if lead = [.here] then [[dot]] else []) ++ front.texts, h.pieces_toBytes.trans ?_, ?_⟩
  · rw [List.append_assoc]
    exact congrArg _ List.map_append
  · rw [origin_toBytes h]
    split
    · rfl
    · rfl

theorem makeDirectory_of_walk_error (h : IsRoute lead (front ++ [x]))
    (hp : IsFollowed (lead ++ (front ++ [x])).toBytes) (hwalk : t.walk (t.start lead) front.texts = .error e) :
    t.makeDirectory (lead ++ (front ++ [x])).toBytes = .error e := by
  obtain ⟨names, hpieces, hnames⟩ := exists_pieces_concat h t
  rw [makeDirectory, target_eq hp, hpieces, List.getLast?_concat, List.dropLast_concat]
  dsimp only
  rw [hnames, hwalk]
  rfl

theorem makeDirectory_of_walk_ok {n : Bytes} (h : IsRoute lead (front ++ [Part.name n]))
    (hp : IsFollowed (lead ++ (front ++ [Part.name n])).toBytes) (hwalk : t.walk (t.start lead) front.texts = .ok q) :
    t.makeDirectory (lead ++ (front ++ [Part.name n])).toBytes =
      match t.lookup q n with
      | .ok _ => .error .exists
      | .error .notFound => .ok (t.put (q ++ [n]) .directory)
      | .error e => .error e := by
  have hname : IsName n := by
    cases h.steps (.name n) (by simp) with
    | name hname => exact hname
  obtain ⟨names, hpieces, hnames⟩ := exists_pieces_concat h t
  have htarget := (target_eq_named_iff hp).mpr ⟨names, hpieces, hname.2.2, hnames.trans hwalk, rfl⟩
  rw [makeDirectory, htarget]
  dsimp only [bind, Except.bind, Part.toBytes]
  cases t.lookup q n with
  | ok e => rfl
  | error e => cases e <;> rfl

theorem isFollowed_of_makeDirectory {path : Bytes} (hne : path ≠ []) (h : t.makeDirectory path = .error .notFound) :
    IsFollowed path := by
  unfold makeDirectory at h
  rcases isFollowed_or_target_eq t path with hp | he | ⟨hnil, -⟩ | he
  · exact hp
  · rw [he] at h
    cases h
  · exact absurd hnil hne
  · rw [he] at h
    cases h

/-! ### Directories that are there -/

section Required
variable {path : Bytes} {part : Part} {above : List Part}

theorem run_requireDirectory_eq_error (h : (requireDirectory path).run.run t = (.error e, u)) :
    t.makeDirectory path = .error e ∧ t.directory? path = none ∧ u = t := by
  rw [run_requireDirectory_eq] at h
  split at h
  · cases h
  · next hmake =>
    split at h
    · cases h
    · next hnone =>
      cases h
      exact ⟨hmake, Option.not_isSome_iff_eq_none.mp hnone, rfl⟩

theorem run_requireDirectory_of_error (hmake : t.makeDirectory path = .error e) (h : t.directory? path = none) :
    (requireDirectory path).run.run t = (.error e, t) := by
  rw [run_requireDirectory_eq, hmake, h]
  rfl

/-- A directory that is required is there. -/
theorem directory?_of_run_requireDirectory (h : (requireDirectory path).run.run t = (.ok (), u)) :
    (u.directory? path).isSome := by
  rw [run_requireDirectory_eq] at h
  split at h
  · next v hmake =>
    cases h
    have hkeep := keeps_makeDirectory hmake
    obtain ⟨parent, name, slashed, htarget, hlook, rfl⟩ := makeDirectory_eq_ok_iff.mp hmake
    have hp := isFollowed_of_target htarget
    obtain ⟨names, hpieces, hdots, hwalk, -⟩ := (target_eq_named_iff hp).mp htarget
    have hmade : (t.put (parent ++ [name]) .directory).lookup parent name = .ok .directory := by
      refine lookup_eq_ok_iff.mpr ⟨(lookup_eq_notFound hlook).1, ?_⟩
      rw [get?_put t _ (by simp), if_pos rfl]
    refine Option.isSome_iff_exists.mpr ⟨parent ++ [name], directory?_eq_some_iff.mpr ⟨hp, ?_⟩⟩
    rw [hpieces, hkeep.origin]
    exact walk_concat_eq_ok.mpr ⟨parent, hkeep.walk hwalk, (enter_eq_ok_iff hdots).mpr ⟨hmade, rfl⟩⟩
  · split at h
    · next hsome =>
      cases h
      exact hsome
    · cases h

theorem directory?_of_run_makeDirectories (h : (makeDirectories (part :: above)).run.run t = (.ok (), u)) :
    (u.directory? (Path.toBytes (part :: above).reverse)).isSome := by
  rw [run_makeDirectories_cons] at h
  split at h
  · split at h
    · exact directory?_of_run_requireDirectory h
    · cases h
  · exact directory?_of_run_requireDirectory h

theorem run_makeDirectories_of_directory? {parts : List Part}
    (h : (t.directory? (Path.toBytes parts.reverse)).isSome) : (makeDirectories parts).run.run t = (.ok (), t) := by
  obtain ⟨q, hq⟩ := Option.isSome_iff_exists.mp h
  obtain ⟨hp, hwalk⟩ := directory?_eq_some_iff.mp hq
  obtain ⟨hfind, hmake⟩ := directory_of_walk hp hwalk
  exact run_makeDirectories hfind hmake

/-- Directories that were made need not be made again. -/
theorem run_makeDirectories_again {parts : List Part} (h : (makeDirectories parts).run.run t = (.ok (), u)) :
    (makeDirectories parts).run.run u = (.ok (), u) := by
  cases parts with
  | nil => rfl
  | cons part above => exact run_makeDirectories_of_directory? (directory?_of_run_makeDirectories h)

/-- What fails is either the last directory at once, or the ones above it, or the last one once these are
    there. -/
theorem run_makeDirectories_eq_error (h : (makeDirectories (part :: above)).run.run t = (.error e, u)) :
    u = t ∨ (t.makeDirectory (Path.toBytes (part :: above).reverse) = .error .notFound ∧
      ((makeDirectories above).run.run t = (.error e, u) ∨
        (makeDirectories above).run.run t = (.ok (), u) ∧
          u.makeDirectory (Path.toBytes (part :: above).reverse) = .error e ∧
          u.directory? (Path.toBytes (part :: above).reverse) = none)) := by
  rw [run_makeDirectories_cons] at h
  split at h
  · next hmake =>
    refine Or.inr ⟨hmake, ?_⟩
    split at h
    · next v habove =>
      obtain ⟨hfails, hnone, rfl⟩ := run_requireDirectory_eq_error h
      exact Or.inr ⟨habove, hfails, hnone⟩
    · next e' v habove =>
      cases h
      exact Or.inl habove
  · exact Or.inl (run_requireDirectory_eq_error h).2.2

end Required

/-! ### Another try -/

theorem run_makeDirectories_of_walk (h : IsRoute lead body)
    (hp : lead ++ body ≠ [] → IsFollowed (lead ++ body).toBytes) (hwalk : t.walk (t.start lead) body.texts = .ok q) :
    (makeDirectories (lead ++ body).reverse).run.run t = (.ok (), t) := by
  by_cases hnil : lead ++ body = []
  · rw [hnil]
    rfl
  · refine run_makeDirectories_of_directory? ?_
    rw [List.reverse_reverse, (directory?_toBytes h (hp hnil)).mpr hwalk]
    rfl

theorem walk_of_run_makeDirectories (h : IsRoute lead body)
    (hrun : (makeDirectories (lead ++ body).reverse).run.run t = (.ok (), u)) :
    ∃ q, u.walk (u.start lead) body.texts = .ok q := by
  cases hparts : (lead ++ body).reverse with
  | nil =>
    obtain ⟨-, rfl⟩ := List.append_eq_nil_iff.mp (List.reverse_eq_nil_iff.mp hparts)
    exact ⟨_, rfl⟩
  | cons part above =>
    rw [hparts] at hrun
    have hsome := directory?_of_run_makeDirectories hrun
    rw [← hparts, List.reverse_reverse] at hsome
    obtain ⟨q, hq⟩ := Option.isSome_iff_exists.mp hsome
    obtain ⟨-, hwalk⟩ := directory?_eq_some_iff.mp hq
    rw [origin_toBytes h, walk_toBytes h] at hwalk
    exact ⟨q, hwalk⟩

/-- What a path that never goes up leads to is not there before the directories on the way are. -/
theorem walk_of_get? (ht : t.IsTree) {names : List Bytes} (hup : [dot, dot] ∉ names) (hwalk : v.walk p names = .ok q)
    {name : Bytes} {entry : Entry} (hget : t.get? (q ++ [name]) = some entry) : t.walk p names = .ok q := by
  induction names using List.reverseRecOn generalizing q name entry with
  | nil => exact hwalk
  | append_singleton names m ih =>
    have hup' : [dot, dot] ∉ names := fun h => hup (List.mem_append_left _ h)
    obtain ⟨r, hr, henter⟩ := walk_concat_eq_ok.mp hwalk
    by_cases hdots : IsDots m
    · rcases hdots with rfl | rfl
      · obtain rfl : r = q := Except.ok.inj henter
        exact walk_concat_eq_ok.mpr ⟨r, ih hup' hr hget, rfl⟩
      · simp at hup
    · obtain ⟨hlook, rfl⟩ := (enter_eq_ok_iff hdots).mp henter
      have hm := ht.get?_parent hget
      refine walk_concat_eq_ok.mpr ⟨r, ih hup' hr hm, (enter_eq_ok_iff hdots).mpr ⟨?_, rfl⟩⟩
      exact lookup_eq_ok_iff.mpr ⟨(lookup_eq_ok_iff.mp hlook).1, hm⟩

/-- The error of another try: the same, unless the path goes up and there is a file in its way. -/
def Retried (names : List Bytes) (e e' : FileError) : Prop :=
  e' = e ∨ (e = .exists ∧ e' = .notDirectory ∧ [dot, dot] ∈ names)

theorem Retried.mono {names names' : List Bytes} (h : Retried names e e') (hsub : names ⊆ names') :
    Retried names' e e' :=
  h.imp_right fun ⟨he, he', hup⟩ => ⟨he, he', hsub hup⟩

/-- Another try at making directories fails and changes nothing. It fails with an error as `e`, and so does
    the walk on their path, unless something on it is missing. -/
structure FailsAgain (lead body : Path) (e : FileError) (u : FileTree) : Prop where
  run : ∃ e', (makeDirectories (lead ++ body).reverse).run.run u = (.error e', u) ∧ Retried (texts body) e e'
  walk : ∀ e', u.walk (u.start lead) (texts body) = .error e' → e' = .notFound ∨ Retried (texts body) e e'

theorem texts_concat (front : Path) (x : Part) : texts (front ++ [x]) = texts front ++ [x.toBytes] := List.map_append

theorem reverse_concat (lead front : Path) (x : Part) :
    (lead ++ (front ++ [x])).reverse = x :: (lead ++ front).reverse := by simp

theorem reverse_cons_reverse (lead front : Path) (x : Part) :
    (x :: (lead ++ front).reverse).reverse = lead ++ (front ++ [x]) := by simp

/-- A path that never goes up leads to a file on the first try already, so that nothing on it is missing. -/
theorem up_mem_of_file {n : Bytes} {entry : Entry} (h : IsRoute lead (front ++ [Part.name n]))
    (hp : IsFollowed (lead ++ (front ++ [Part.name n])).toBytes) (ht : t.IsTree) (hkeep : Keeps [] t u)
    (hmissing : t.makeDirectory (lead ++ (front ++ [Part.name n])).toBytes = .error .notFound)
    (habove : u.walk (u.start lead) (texts front) = .ok q) (hlook : u.lookup q n = .ok entry)
    (hfile : entry ≠ .directory) : [dot, dot] ∈ texts front := by
  by_contra hup
  obtain ⟨hlen, hget⟩ := lookup_eq_ok_iff.mp hlook
  have hget : t.get? (q ++ [n]) = some entry := by
    cases entry with
    | file c =>
      rw [← content?_eq_some_iff, ← hkeep.content _ List.not_mem_nil]
      exact content?_eq_some_iff.mpr hget
    | locked => exact (hkeep.locked _).mp hget
    | directory => exact absurd rfl hfile
  have hstart : u.start lead = t.start lead := by rw [start, start, hkeep.current]
  have hwalk : t.walk (t.start lead) (texts front) = .ok q := hstart ▸ walk_of_get? ht hup habove hget
  rw [makeDirectory_of_walk_ok h hp hwalk, lookup_eq_ok_iff.mpr ⟨hlen, hget⟩] at hmissing
  cases hmissing

section Concat
variable (h : IsRoute lead (front ++ [x])) (hp : IsFollowed (lead ++ (front ++ [x])).toBytes)
include h hp

/-- The directories above the last one fail again, and it with them. -/
theorem FailsAgain.concat (ih : FailsAgain lead front e u) : FailsAgain lead (front ++ [x]) e u := by
  have hsub : texts front ⊆ texts (front ++ [x]) := by
    rw [texts_concat]
    exact List.subset_append_left _ _
  obtain ⟨e', hagain, he'⟩ := ih.run
  cases hfront : u.walk (u.start lead) (texts front) with
  | ok q =>
    have hok := run_makeDirectories_of_walk h.dropLast (isFollowed_front h hp) hfront
    rw [hagain] at hok
    cases hok
  | error f =>
    have hmake := makeDirectory_of_walk_error h hp hfront
    have hwalk : u.walk (u.start lead) (texts (front ++ [x])) = .error f := by
      rw [texts_concat, walk_concat, hfront]
      rfl
    refine ⟨?_, fun f' hf' => ?_⟩
    · rw [reverse_concat, run_makeDirectories_cons, reverse_cons_reverse, hmake]
      by_cases hf : f = .notFound
      · subst hf
        exact ⟨e', by rw [hagain], he'.mono hsub⟩
      · have hnone : u.directory? (lead ++ (front ++ [x])).toBytes = none := by
          refine Option.eq_none_iff_forall_ne_some.mpr fun q hq => ?_
          rw [(directory?_toBytes h hp).mp hq] at hwalk
          cases hwalk
        refine ⟨f, ?_, ((ih.walk f hfront).resolve_left hf).mono hsub⟩
        split
        · next hmissing => exact absurd (Except.error.inj hmissing) hf
        · exact run_requireDirectory_of_error hmake hnone
    · obtain rfl := Except.error.inj (hwalk.symm.trans hf')
      exact (ih.walk f hfront).imp_right fun hf => hf.mono hsub

/-- The directories above the last one are there, but it fails again. -/
theorem failsAgain_of_above (ht : t.IsTree) (hkeep : Keeps [] t u)
    (hmissing : t.makeDirectory (lead ++ (front ++ [x])).toBytes = .error .notFound)
    (habove : u.walk (u.start lead) (texts front) = .ok q)
    (hmake : u.makeDirectory (lead ++ (front ++ [x])).toBytes = .error e)
    (hnone : u.directory? (lead ++ (front ++ [x])).toBytes = none) : FailsAgain lead (front ++ [x]) e u := by
  have hwalk : ∀ r, u.walk (u.start lead) (texts (front ++ [x])) ≠ .ok r := fun r hr => by
    rw [(directory?_toBytes h hp).mpr hr] at hnone
    cases hnone
  rw [texts_concat] at hwalk
  cases h.steps x (by simp) with
  | up => exact absurd (walk_concat_eq_ok.mpr ⟨q, habove, rfl⟩) (hwalk _)
  | @name n hname =>
    have henter : u.walk (u.start lead) (texts front ++ [n]) = u.enter q n := by
      rw [walk_concat, habove]
      rfl
    have hrequire := run_requireDirectory_of_error hmake hnone
    refine ⟨⟨e, ?_, Or.inl rfl⟩, fun f hf => ?_⟩
    · rw [reverse_concat, run_makeDirectories_cons, reverse_cons_reverse]
      split
      · rw [run_makeDirectories_of_walk h.dropLast (isFollowed_front h hp) habove]
        exact hrequire
      · exact hrequire
    · rw [texts_concat] at hf ⊢
      have hf : u.enter q n = .error f := henter.symm.trans hf
      rw [makeDirectory_of_walk_ok h hp habove] at hmake
      unfold enter at hf
      rw [if_neg fun hd => hname.2.2 (Or.inl hd), if_neg fun hd => hname.2.2 (Or.inr hd)] at hf
      cases hlook : u.lookup q n with
      | error g =>
        rw [hlook] at hmake hf
        obtain rfl : g = f := Except.error.inj hf
        cases g with
        | notFound => cases hmake
        | _ =>
          cases hmake
          exact Or.inr (Or.inl rfl)
      | ok entry =>
        rw [hlook] at hmake hf
        cases hmake
        cases entry with
        | directory => cases hf
        | file _ | locked =>
          cases hf
          have hup := up_mem_of_file h hp ht hkeep hmissing habove hlook (by simp)
          exact Or.inr (Or.inr ⟨rfl, rfl, List.mem_append_left _ hup⟩)

end Concat

/-- Directories that cannot be made cannot be made on another try. If some directory on the way was missing
    at first, the walk on it now stops for the reason of the first try. -/
theorem run_makeDirectories_fails_again (h : IsRoute lead body) (ht : t.IsTree)
    (hrun : (makeDirectories (lead ++ body).reverse).run.run t = (.error e, u)) :
    (∃ e', (makeDirectories (lead ++ body).reverse).run.run u = (.error e', u) ∧ Retried (texts body) e e') ∧
      (t.walk (t.start lead) (texts body) = .error .notFound → FailsAgain lead body e u) := by
  induction body using List.reverseRecOn generalizing e with
  | nil =>
    have hok := run_makeDirectories_of_walk (t := t) h ?_ (q := t.start lead) rfl
    · rw [hok] at hrun
      cases hrun
    · rcases h.lead with rfl | rfl | rfl
      · simp
      · exact fun _ => ⟨by decide, by decide, by decide⟩
      · exact fun _ => ⟨by decide, by decide, by decide⟩
  | append_singleton front x ih =>
    have hfails := hrun
    rw [reverse_concat] at hrun
    rcases run_makeDirectories_eq_error hrun with rfl | ⟨hmissing, hcase⟩
    · refine ⟨⟨e, hfails, Or.inl rfl⟩, fun hmissing => ⟨⟨e, hfails, Or.inl rfl⟩, fun e' he' => Or.inl ?_⟩⟩
      exact Except.error.inj (he'.symm.trans hmissing)
    · rw [reverse_cons_reverse] at hmissing hcase
      have hp := isFollowed_of_makeDirectory (h.toBytes_ne_nil (by simp)) hmissing
      suffices hagain : FailsAgain lead (front ++ [x]) e u from ⟨hagain.run, fun _ => hagain⟩
      rcases hcase with habove | ⟨habove, hmake, hnone⟩
      · refine FailsAgain.concat h hp ((ih h.dropLast habove).2 ?_)
        cases hwalk : t.walk (t.start lead) (texts front) with
        | ok q =>
          rw [run_makeDirectories_of_walk h.dropLast (isFollowed_front h hp) hwalk] at habove
          cases habove
        | error f =>
          have hf := (makeDirectory_of_walk_error h hp hwalk).symm.trans hmissing
          rw [Except.error.inj hf]
      · obtain ⟨q, hwalk⟩ := walk_of_run_makeDirectories h.dropLast habove
        exact failsAgain_of_above h hp ht (keeps_makeDirectories habove) hmissing hwalk hmake hnone

/-! ### Another write -/

theorem exists_route_of_parent? {path : Bytes} {parent : Path} (h : (ofBytes path).parent? = some parent) :
    ∃ lead body, IsRoute lead body ∧ parent = lead ++ body ∧ texts body ⊆ pieces path := by
  have hparent : parent = (ofBytes path).dropLast := by
    unfold parent? at h
    split at h
    · cases h
    · cases h
    · exact (Option.some.inj h).symm
  have hroute := isRoute_ofBytes path
  have hsaid : texts ((pieces path).filterMap Part.ofPiece?) ⊆ pieces path := by
    intro n hn
    rw [texts, map_toBytes_filterMap] at hn
    exact (List.mem_filter.mp (List.mem_filter.mp hn).1).1
  rw [ofBytes_eq] at hparent
  rcases List.eq_nil_or_concat' ((pieces path).filterMap Part.ofPiece?) with hnil | ⟨front, x, hlast⟩
  · refine ⟨[], [], ⟨Or.inl rfl, by simp⟩, ?_, List.nil_subset _⟩
    rw [hparent, hnil]
    rcases hroute.lead with hlead | hlead | hlead <;> rw [hlead] <;> rfl
  · rw [hlast] at hparent hroute hsaid
    refine ⟨Path.lead path, front, hroute.dropLast, ?_, fun n hn => hsaid ?_⟩
    · rw [hparent, ← List.append_assoc, List.dropLast_concat]
    · rw [texts_concat]
      exact List.mem_append_left _ hn

/-- A write that fails would fail again, and leave things as they are by then. -/
theorem run_writeWithin_fails_again {path : Bytes} {content : Bytes} (ht : t.IsTree)
    (h : (writeWithin path content).run.run t = (.error e, u)) :
    ∃ e', (writeWithin path content).run.run u = (.error e', u) ∧ Retried (pieces path) e e' := by
  rw [run_writeWithin_eq] at h
  cases hparent : (ofBytes path).parent? with
  | none =>
    have hagain := h
    rw [runParents, hparent] at h
    obtain rfl : t = u := by
      dsimp only at h
      split at h <;> cases h
      rfl
    rw [run_writeWithin_eq]
    exact ⟨e, hagain, Or.inl rfl⟩
  | some parent =>
    obtain ⟨lead, body, hroute, rfl, hsub⟩ := exists_route_of_parent? hparent
    have hrun : ∀ v, v.runParents path = (makeDirectories (lead ++ body).reverse).run.run v := fun v => by
      rw [runParents, hparent]
    rw [run_writeWithin_eq]
    simp only [hrun] at h ⊢
    split at h
    · next v hparents =>
      split at h
      · cases h
      · next hwrite =>
        cases h
        exact ⟨e, by rw [run_makeDirectories_again hparents]; simp only [hwrite], Or.inl rfl⟩
    · next hparents =>
      cases h
      obtain ⟨⟨e', hagain, he'⟩, -⟩ := run_makeDirectories_fails_again hroute ht hparents
      exact ⟨e', by rw [hagain], he'.mono hsub⟩

end FileTree

end EndpointAtlas
