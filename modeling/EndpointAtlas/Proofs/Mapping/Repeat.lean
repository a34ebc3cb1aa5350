import EndpointAtlas.Proofs.FileTree.Alike
import EndpointAtlas.Proofs.FileTree.Retry
import EndpointAtlas.Proofs.Mapping.Outcome
import EndpointAtlas.Proofs.SourceTree.Candidates

/-! A run after a run. The second finds the directories and documents of the first, but as long as no document
    is a source file it reads the same sources, and so it writes the same documents over the old ones. If the
    first run stopped at a document, the second stops there too. -/

namespace EndpointAtlas
open FileTree

/-! ### Documents that are written again -/

namespace Storage
variable {base : Text} {d : Text × Bytes} {documents documents' : List (Text × Bytes)} {t t' u w : FileTree}

theorem alike_run_write_below (h : Alike t u) (base name : Text) (c c' : Bytes) :
    AlikeRuns (((below base).write name c).run.run t) (((below base).write name c').run.run u) := by
  rw [run_write_below_eq, run_write_below_eq]
  obtain ⟨hresult, htree⟩ := h.run_writeWithin (joinPath base name) c c'
  generalize StateT.run (ExceptT.run (writeWithin (joinPath base name) c)) t = x at hresult htree ⊢
  generalize StateT.run (ExceptT.run (writeWithin (joinPath base name) c')) u = y at hresult htree ⊢
  obtain ⟨r, v⟩ := x
  obtain ⟨r', v'⟩ := y
  obtain rfl : r = r' := hresult
  cases r with
  | ok a => exact ⟨rfl, htree⟩
  | error e => exact ⟨rfl, htree⟩

/-- A document that is there can be written again, which leaves everything in its place. -/
theorem run_write_below_over {c : Bytes} (hread : u.read (joinPath base d.1) = .ok c) (huw : Alike u w) :
    ∃ w', ((below base).write d.1 d.2).run.run w = (.ok (), w') ∧ Alike u w' := by
  obtain ⟨parent, name, htarget, hlook⟩ := read_eq_ok_iff.mp hread
  have hover : ((below base).write d.1 d.2).run.run u = (.ok (), u.put (parent ++ [name]) (.file d.2)) := by
    rw [run_write_below_eq, run_writeWithin_over hread, placeOf_of_target htarget]
  have hfile : Alike u (u.put (parent ++ [name]) (.file d.2)) :=
    Alike.put_file (by simp) (lookup_eq_ok_iff.mp hlook).2 _
  obtain ⟨w', hw', halike⟩ := (alike_run_write_below huw base d.1 d.2 d.2).exists_eq hover
  exact ⟨w', hw', hfile.trans halike⟩

/-- What a second try ends with: the same, unless a path goes up and there is a file in its way. -/
def EndsAgain (base : Text) (documents : List (Text × Bytes)) (r r' : Except Fault Unit) : Prop :=
  r' = r ∨ (r = .error (.file .exists) ∧ r' = .error (.file .notDirectory) ∧
    ∃ d ∈ documents, [dot, dot] ∈ pieces (joinPath base d.1))

theorem EndsAgain.cons {r r' : Except Fault Unit} (h : EndsAgain base documents r r') (d : Text × Bytes) :
    EndsAgain base (d :: documents) r r' :=
  h.imp_right fun ⟨hr, hr', e, he, hup⟩ => ⟨hr, hr', e, List.mem_cons_of_mem _ he, hup⟩

theorem run_write_below_fails_again {f : Fault} (documents : List (Text × Bytes)) (ht : t.IsTree)
    (h : ((below base).write d.1 d.2).run.run t = (.error f, u)) :
    ∃ f', ((below base).write d.1 d.2).run.run u = (.error f', u) ∧
      EndsAgain base (d :: documents) (.error f) (.error f') := by
  rw [run_write_below_eq] at h
  split at h
  · cases h
  · next e v hwrite =>
    cases h
    obtain ⟨e', hagain, he'⟩ := run_writeWithin_fails_again ht hwrite
    refine ⟨.file e', by rw [run_write_below_eq, hagain], ?_⟩
    rcases he' with rfl | ⟨rfl, rfl, hup⟩
    · exact Or.inl rfl
    · exact Or.inr ⟨rfl, rfl, d, List.mem_cons_self, hup⟩

/-- Documents are written from `t`, which leaves `u`. Others of the same names are written from `t'`, and once
    more from `w`. A file is the same in `t'` and `w` if it was written in both, and else as it was at first. -/
structure Redo (t t' u w : FileTree) : Prop where
  current : u.current = t.current
  once : Alike t t'
  again : Alike u w
  content : ∀ p, w.content? p = t'.content? p ∨ w.content? p = u.content? p ∧ t.content? p = t'.content? p

namespace Redo
variable {t₁ t₁' w₁ : FileTree} {name : Text} {c c' : Bytes}

theorem sameTree (h : Redo t t' t w) : SameTree w t' := by
  refine (h.again.symm.trans h.once).sameTree fun p => ?_
  rcases h.content p with hp | ⟨hp, hp'⟩
  · exact hp
  · exact hp.trans hp'

theorem keeps (h : Redo t t' u w) (ht : Keeps [] t t₁) (ht' : Keeps [] t' t₁') (hw : Keeps [] w w₁)
    (once : Alike t₁ t₁') (again : Alike u w₁) : Redo t₁ t₁' u w₁ := by
  refine ⟨h.current.trans ht.current.symm, once, again, fun p => ?_⟩
  rw [ht.content p List.not_mem_nil, ht'.content p List.not_mem_nil, hw.content p List.not_mem_nil]
  exact h.content p

theorem write (h : Redo t t' u w) (ht : ((below base).write name c).run.run t = (.ok (), t₁))
    (ht' : ((below base).write name c').run.run t' = (.ok (), t₁'))
    (hw : ((below base).write name c').run.run w = (.ok (), w₁)) (once : Alike t₁ t₁') (again : Alike u w₁) :
    Redo t₁ t₁' u w₁ := by
  obtain ⟨hkeep, -⟩ := keeps_write_below_of_ok (d := (name, c)) ht
  obtain ⟨hkeep', hcontent'⟩ := keeps_write_below_of_ok (d := (name, c')) ht'
  obtain ⟨hkeepw, hcontentw⟩ := keeps_write_below_of_ok (d := (name, c')) hw
  rw [place_congr h.once.current.symm] at hkeep' hcontent'
  rw [place_congr (h.again.current.symm.trans h.current)] at hkeepw hcontentw
  refine ⟨h.current.trans hkeep.current.symm, once, again, fun p => ?_⟩
  by_cases hp : p = place base t (name, c')
  · subst hp
    exact Or.inl (hcontentw.trans hcontent'.symm)
  · have hout : p ∉ [place base t (name, c')] := by simpa using hp
    rw [hkeep.content p hout, hkeep'.content p hout, hkeepw.content p hout]
    exact h.content p

end Redo

theorem run_writeAll_again {r : Except Fault Unit} (hnames : documents'.map (·.1) = documents.map (·.1))
    (ht : t.IsTree) (hrun : ((below base).writeAll documents).run.run t = (r, u)) (h : Redo t t' u w) :
    ∃ r' v v', ((below base).writeAll documents').run.run t' = (r, v') ∧
      ((below base).writeAll documents').run.run w = (r', v) ∧ SameTree v v' ∧ EndsAgain base documents r r' := by
  induction documents generalizing documents' t t' w with
  | nil =>
    obtain rfl := List.map_eq_nil_iff.mp hnames
    cases hrun
    exact ⟨_, w, t', rfl, rfl, h.sameTree, Or.inl rfl⟩
  | cons d documents ih =>
    obtain ⟨name, c⟩ := d
    obtain ⟨⟨name', c'⟩, documents', rfl, hname, hrest⟩ := List.map_eq_cons_iff.mp hnames
    obtain rfl : name' = name := hname
    rw [run_writeAll_cons] at hrun
    simp only [run_writeAll_cons]
    split at hrun
    · next t₁ hwrite =>
      obtain ⟨t₁', hwrite', once⟩ := (alike_run_write_below h.once base name' c c').exists_eq hwrite
      -- The rest of the first run leaves this document where it is.
      obtain ⟨c₀, hread, -⟩ := read_of_keeps (keeps_writeAll_below hrun) (read_of_run_write_below hwrite)
      obtain ⟨w₁, hwritew, again⟩ := run_write_below_over (d := (name', c')) hread h.again
      have hkeep := (keeps_write_below_of_ok (d := (name', c)) hwrite).1
      obtain ⟨r', v, v', honce, hagain, hsame, hr⟩ :=
        ih hrest (hkeep.isTree ht) hrun (h.write hwrite hwrite' hwritew once again)
      rw [hwrite', hwritew]
      exact ⟨r', v, v', honce, hagain, hsame, hr.cons _⟩
    · next f t₁ hwrite =>
      cases hrun
      obtain ⟨t₁', hwrite', once⟩ := (alike_run_write_below h.once base name' c c').exists_eq hwrite
      obtain ⟨f', hfails, hr⟩ := run_write_below_fails_again (d := (name', c)) documents ht hwrite
      obtain ⟨w₁, hwritew, again⟩ := (alike_run_write_below h.again base name' c c').exists_eq hfails
      have hkeep := (keeps_write_below_of_error (d := (name', c)) hwrite).1
      have hkeep' := (keeps_write_below_of_error (d := (name', c')) hwrite').1
      have hkeepw := (keeps_write_below_of_error (d := (name', c')) hwritew).1
      rw [hwrite', hwritew]
      exact ⟨.error f', w₁, t₁', rfl, rfl, (h.keeps hkeep hkeep' hkeepw once again).sameTree, hr⟩

end Storage

/-! ### The run that is made again -/

/-- The same records, and `more` files that could not be read. -/
def Survey.skipping (found : Survey) (more : Nat) : Survey := { found with skippedFiles := found.skippedFiles + more }

namespace Settings
variable {s : Settings} {t u w : FileTree} {time : Text} {p : Place}

/-- At the place is a file that a run reads. -/
def IsSource (s : Settings) (t : FileTree) (p : Place) : Prop :=
  ∃ path ∈ [s.northboundRoot, s.southboundRoot], ∃ root, t.directory? path = some root ∧
    ∃ q ∈ SourceTree.candidates t path root s.extension s.sorted, p = root ++ q

/-- At the place is a directory that a run comes upon and cannot list. -/
def IsUnlisted (s : Settings) (t : FileTree) (p : Place) : Prop :=
  ∃ path ∈ [s.northboundRoot, s.southboundRoot], ∃ root, t.directory? path = some root ∧
    ∃ q ∈ SourceTree.unlisted t path root, p = root ++ q

/-- How many directories a run comes upon and cannot list, counted below each root by itself. -/
def unlistedCount (s : Settings) (t : FileTree) : Nat :=
  SourceTree.unlistedCount t s.northboundRoot + SourceTree.unlistedCount t s.southboundRoot

theorem get?_of_isUnlisted (ht : t.IsTree) (h : s.IsUnlisted t p) : t.get? p = some .directory := by
  obtain ⟨path, -, root, -, q, hq, rfl⟩ := h
  exact ((SourceTree.mem_unlisted ht).mp hq).1.2

theorem hasExtension_of_isSource (h : s.IsSource t p) : p.HasExtension s.extension := by
  obtain ⟨path, -, root, -, q, hq, rfl⟩ := h
  rw [(SourceTree.candidates_perm t path root s.extension s.sorted).mem_iff] at hq
  have hext : q.HasExtension s.extension := by
    simp only [SourceTree.candidates, Bool.false_eq_true, if_false, List.mem_map, List.mem_filter,
      decide_eq_true_eq] at hq
    obtain ⟨f, ⟨-, -, hext⟩, rfl⟩ := hq
    exact hext
  have hne : q ≠ [] := fun hnil => by
    rw [hnil] at hext
    cases hext
  rw [Place.HasExtension, List.getLast?_append_of_ne_nil _ hne]
  exact hext

theorem directory?_of_keeps {W : List Place} (h : Keeps W t u) {path : Bytes} {root : Place}
    (hroot : t.directory? path = some root) : u.directory? path = some root := by
  obtain ⟨hp, hwalk⟩ := directory?_eq_some_iff.mp hroot
  exact directory?_eq_some_iff.mpr ⟨hp, h.origin path ▸ h.walk hwalk⟩

theorem directory?_of_run {r : Except Fault Text} (hrun : (s.run time).run.run t = (r, u)) {path : Text}
    (hpath : path ∈ [s.northboundRoot, s.southboundRoot]) : u.directory? path = t.directory? path := by
  cases hroot : t.directory? path with
  | some root => exact directory?_of_keeps (keeps_run hrun) hroot
  | none =>
    cases hmissing : s.missingRoot? t with
    | some root =>
      rw [run_of_missingRoot hmissing] at hrun
      cases hrun
      exact hroot
    | none =>
      unfold missingRoot? at hmissing
      rcases List.mem_pair.mp hpath with rfl | rfl
      · rw [if_pos hroot] at hmissing
        cases hmissing
      · rw [if_pos hroot] at hmissing
        split at hmissing <;> cases hmissing

/-- At a place that could be a source file of `u` but is none, there was no file before. -/
theorem file?_of_run (ht : t.IsTree) {r : Except Fault Text} (hrun : (s.run time).run.run t = (r, u))
    (hapart : ∀ p ∈ s.documentPlaces t, ¬s.IsSource u p) {path : Text}
    (hpath : path ∈ [s.northboundRoot, s.southboundRoot]) {root : Place} (hroot : u.directory? path = some root)
    (hopens : Place.Opens path p.dropLast) (hext : p.HasExtension s.extension) :
    u.file? (root ++ p) = t.file? (root ++ p) := by
  have hkeep := keeps_run hrun
  by_cases hplace : root ++ p ∈ s.documentPlaces t
  · have hafter : ¬(u.file? (root ++ p)).isSome := by
      refine fun hfile => hapart _ hplace ⟨path, hpath, root, hroot, p, ?_, rfl⟩
      refine (SourceTree.mem_candidates_iff (hkeep.isTree ht) hroot).mpr ⟨?_, hfile, hopens, hext⟩
      rintro rfl
      cases hext
    rw [Option.not_isSome_iff_eq_none.mp hafter, Option.not_isSome_iff_eq_none.mp (mt hkeep.isSome_file? hafter)]
  · exact hkeep.file?_eq hplace

/-- What is read does not change with the directories that were made and the documents that were written, but for the
    new directories that cannot be listed. -/
theorem survey_of_run (hsorted : s.sorted = true) (ht : t.IsTree) {r : Except Fault Text}
    (hrun : (s.run time).run.run t = (r, u)) (hw : w.IsTree) (hsame : SameTree u w)
    (hapart : ∀ p ∈ s.documentPlaces t, ¬s.IsSource u p) :
    ∃ more, s.survey w = (s.survey t).map (·.skipping more) ∧ s.unlistedCount w = s.unlistedCount t + more ∧
      ((∀ p, s.IsUnlisted u p → t.get? p = some .directory) → more = 0) := by
  have hkeep := keeps_run hrun
  have hcollect : ∀ path ∈ [s.northboundRoot, s.southboundRoot], ∃ more,
      (∀ side, SourceTree.collect w path s.extension side s.sorted =
        (SourceTree.collect t path s.extension side s.sorted).map (·.skipping more)) ∧
      SourceTree.unlistedCount w path = SourceTree.unlistedCount t path + more ∧
      ((∀ p, s.IsUnlisted u p → t.get? p = some .directory) → more = 0) := by
    intro path hpath
    have hdirectory := directory?_of_run hrun hpath
    have hdirectory' := (hsame.alike.directory? path).symm.trans hdirectory
    rw [hsorted]
    cases hroot : t.directory? path with
    | none =>
      rw [SourceTree.unlistedCount, SourceTree.unlistedCount, hdirectory', hroot]
      refine ⟨0, fun side => ?_, rfl, fun _ => rfl⟩
      rw [SourceTree.collect, SourceTree.collect, hdirectory', hroot]
      rfl
    | some root =>
      obtain ⟨more, hmore, hold⟩ := SourceTree.exists_length_unlisted_eq ht hw hroot (hdirectory'.trans hroot)
        fun p hp => by
          rw [← hsame.get?]
          exact hkeep.directory _ hp
      refine ⟨more, fun side => SourceTree.collect_eq ht hw hdirectory'.symm ?_ ?_, ?_, fun hlisted => hold fun p hp => ?_⟩
      · intro place hplace p hopens hext
        rw [← hsame.file?]
        exact (file?_of_run ht hrun hapart hpath (hdirectory.trans hplace) hopens hext).symm
      · intro place hplace
        obtain rfl := Option.some.inj (hroot.symm.trans hplace)
        exact hmore
      · rw [SourceTree.unlistedCount, SourceTree.unlistedCount, hdirectory', hroot]
        exact hmore
      · refine hlisted _ ⟨path, hpath, root, hdirectory.trans hroot, p, ?_, rfl⟩
        obtain ⟨hne, hget, hopens⟩ := (SourceTree.mem_unlisted_iff hw (hdirectory'.trans hroot)).mp hp
        rw [← hsame.get?] at hget
        exact (SourceTree.mem_unlisted_iff (hkeep.isTree ht) (hdirectory.trans hroot)).mpr ⟨hne, hget, hopens⟩
  obtain ⟨north, hnorth, hcount, hnorth'⟩ := hcollect s.northboundRoot (by simp)
  obtain ⟨south, hsouth, hcount', hsouth'⟩ := hcollect s.southboundRoot (by simp)
  refine ⟨north + south, ?_, ?_, fun hlisted => by rw [hnorth' hlisted, hsouth' hlisted]⟩
  · unfold survey
    rw [hnorth, hsouth]
    cases SourceTree.collect t s.northboundRoot s.extension .northbound s.sorted with
    | error f => rfl
    | ok northbound =>
      cases SourceTree.collect t s.southboundRoot s.extension .southbound s.sorted with
      | error f => rfl
      | ok southbound =>
        exact congrArg (fun n => Except.ok (Survey.mk _ _ _ _ n)) (Nat.add_add_add_comm _ _ _ _)
  · rw [unlistedCount, unlistedCount, hcount, hcount', Nat.add_add_add_comm]

/-- Where nothing has the extension, a survey finds nothing but directories that cannot be listed. -/
theorem survey_of_no_sources (ht : t.IsTree) {north south : Place} (hnorth : t.directory? s.northboundRoot = some north)
    (hsouth : t.directory? s.southboundRoot = some south)
    (hnames : ∀ e ∈ t.entriesBelow north, ¬e.1.HasExtension s.extension)
    (hnames' : ∀ e ∈ t.entriesBelow south, ¬e.1.HasExtension s.extension) :
    s.survey t = .ok ⟨[], [], 0, 0, (SourceTree.unlisted t s.northboundRoot north).length +
      (SourceTree.unlisted t s.southboundRoot south).length⟩ := by
  rw [survey, SourceTree.collect_of_no_sources ht hnorth hnames, SourceTree.collect_of_no_sources ht hsouth hnames']
  rfl

/-- The run that the settings describe, with `more` files counted as skipped than there are. -/
def runSkipping (s : Settings) (more : Nat) (time : Text) : Task FileTree Text :=
  { s.phases time with survey := (Survey.skipping · more) <$> (s.phases time).survey }.run

theorem runSkipping_zero (s : Settings) (time : Text) : s.runSkipping 0 time = s.run time := by
  have hmap : (fun found : Survey => found.skipping 0) = id := rfl
  rw [runSkipping, hmap, id_map]
  rfl

theorem run_runSkipping_eq (s : Settings) (more : Nat) (time : Text) (t : FileTree) :
    (s.runSkipping more time).run.run t =
      match (s.survey t).map (·.skipping more) with
      | .error f => (.error f, t)
      | .ok found =>
        match ((Storage.below s.outputPath).writeAll (found.atlas.documents s.documents time)).run.run t with
        | (.ok (), u) => (.ok s.outputPath, u)
        | (.error f, u) => (.error f, u) := by
  have hsurvey : ((Survey.skipping · more) <$> (s.phases time).survey : Task FileTree Survey).run.run t =
      ((s.survey t).map (·.skipping more), t) := by
    rw [ExceptT.run_map, StateT.run_map, run_survey]
    rfl
  rw [runSkipping, run_of_phases, hsurvey]
  cases (s.survey t).map (·.skipping more) <;> rfl

end Settings

/-- Running twice is running once. After a run, another finds the same sources, if the sources are sorted and no
    document is one of them. It ends as the first did, and leaves the tree that it would have left instead of the
    first; or, where the first made directories among the sources that are too far down to be listed, the tree that a
    run with so many more skipped files would have left. Only where a document cannot be written may the words for this
    change, if its path goes up. -/
theorem run_again (s : Settings) (time time' : Text) {t u w : FileTree} {r : Except Fault Text}
    (hsorted : s.sorted = true) (ht : t.IsTree) (hrun : (s.run time).run.run t = (r, u)) (hw : w.IsTree)
    (hsame : SameTree u w) (hapart : ∀ p ∈ s.documentPlaces t, ¬s.IsSource u p) :
    ∃ r' v v', (s.run time').run.run w = (r', v) ∧ SameTree v v' ∧
      ((∀ p, s.IsUnlisted u p → t.get? p = some .directory) → (s.run time').run.run t = (r, v')) ∧
      (∃ more, s.unlistedCount w = s.unlistedCount t + more ∧ (s.runSkipping more time').run.run t = (r, v')) ∧
      (r' = r ∨ r = .error (.file .exists) ∧ r' = .error (.file .notDirectory) ∧
        ∃ name ∈ s.documents.toList, [dot, dot] ∈ pieces (joinPath s.outputPath name)) := by
  obtain ⟨more, hsurvey, hcount, hmore⟩ := Settings.survey_of_run hsorted ht hrun hw hsame hapart
  have hcurrent := (Settings.keeps_run hrun).current
  suffices hskip : ∃ r' v v', (s.run time').run.run w = (r', v) ∧ (s.runSkipping more time').run.run t = (r, v') ∧
      SameTree v v' ∧ (r' = r ∨ r = .error (.file .exists) ∧ r' = .error (.file .notDirectory) ∧
        ∃ name ∈ s.documents.toList, [dot, dot] ∈ pieces (joinPath s.outputPath name)) by
    obtain ⟨r', v, v', hagain, honce, hleft, hr⟩ := hskip
    refine ⟨r', v, v', hagain, hleft, fun hlisted => ?_, ⟨more, hcount, honce⟩, hr⟩
    rwa [hmore hlisted, Settings.runSkipping_zero] at honce
  rw [Settings.run_run_eq] at hrun
  rw [Settings.run_run_eq, Settings.run_runSkipping_eq, hsurvey]
  cases hfound : s.survey t with
  | error f =>
    rw [hfound] at hrun
    cases hrun
    exact ⟨.error f, w, t, rfl, rfl, ⟨hsame.current.symm, fun p => (hsame.get? p).symm⟩, Or.inl rfl⟩
  | ok found =>
    rw [hfound] at hrun
    dsimp only [Except.map] at hrun ⊢
    have hnames : (found.atlas.documents s.documents time).map (·.1) = s.documents.toList := rfl
    have hnames' : ((found.skipping more).atlas.documents s.documents time').map (·.1) = s.documents.toList := rfl
    generalize (found.skipping more).atlas.documents s.documents time' = documents' at hnames' ⊢
    generalize found.atlas.documents s.documents time = documents at hnames hrun
    generalize hwrite : ((Storage.below s.outputPath).writeAll documents).run.run t = x at hrun
    obtain ⟨r₁, u₁⟩ := x
    obtain rfl : u₁ = u := by cases r₁ <;> exact (Prod.mk.inj hrun).2
    have hredo : Storage.Redo t t u₁ w :=
      ⟨hcurrent, Alike.refl t, hsame.alike, fun p => Or.inr ⟨(hsame.content? p).symm, rfl⟩⟩
    obtain ⟨r₁', v, v', honce, hagain, hleft, hr⟩ :=
      Storage.run_writeAll_again (hnames'.trans hnames.symm) ht hwrite hredo
    have hnamed : ∀ d ∈ documents, d.1 ∈ s.documents.toList := fun d hd => hnames ▸ List.mem_map_of_mem hd
    rw [honce, hagain]
    rcases hr with rfl | ⟨rfl, rfl, d, hd, hup⟩
    · cases r₁' with
      | ok a => exact ⟨_, v, v', rfl, (Prod.mk.inj hrun).1 ▸ rfl, hleft, Or.inl (Prod.mk.inj hrun).1⟩
      | error f => exact ⟨_, v, v', rfl, (Prod.mk.inj hrun).1 ▸ rfl, hleft, Or.inl (Prod.mk.inj hrun).1⟩
    · cases hrun
      exact ⟨_, v, v', rfl, rfl, hleft, Or.inr ⟨rfl, rfl, d.1, hnamed d hd, hup⟩⟩

/-- The output directory lies in a source tree, and there is a document of an earlier run. -/
theorem run_again_into_sources :
    let s : Settings :=
      { northboundRoot := "nb", southboundRoot := "sb", outputPath := "nb/out", sorted := true }
    let t : FileTree := ⟨[(["nb"], .directory), (["nb", "V1"], .directory), (["nb", "V1", "a.rb"], .file []),
      (["nb", "out"], .directory), (["nb", "out", "northbound.csv"], .file [1]), (["sb"], .directory)], []⟩
    t.IsTree ∧ ∃ u v v', (s.run "TIME").run.run t = (.ok "nb/out", u) ∧ u.IsTree ∧
      (∀ p ∈ s.documentPlaces t, ¬s.IsSource u p) ∧ (∀ p, s.IsUnlisted u p → t.get? p = some .directory) ∧
      (s.run "LATER").run.run t = (.ok "nb/out", v') ∧ (s.run "LATER").run.run u = (.ok "nb/out", v) ∧
      SameTree v v' := by
  intro s t
  have ht : t.IsTree := ⟨by decide, by decide, by decide, by decide⟩
  have hapart : ∀ u, ∀ p ∈ s.documentPlaces t, ¬s.IsSource u p := by
    have hnames : ∀ p ∈ s.documentPlaces t, ¬p.HasExtension s.extension := by decide +kernel
    exact fun u p hp hsource => hnames p hp (Settings.hasExtension_of_isSource hsource)
  have hsurvey : s.survey t = .ok ⟨[], [], 1, 0, 0⟩ := by decide +kernel
  obtain ⟨u, hrun, hdirectory⟩ : ∃ u, (s.run "TIME").run.run t = (.ok "nb/out", u) ∧
      ∀ p, u.get? p = some .directory → t.get? p = some .directory := by
    rw [Settings.run_run_eq, hsurvey]
    dsimp only
    obtain ⟨c₁, c₂, c₃, c₄, hdocuments⟩ := (Survey.atlas ⟨[], [], 1, 0, 0⟩).exists_documents s.documents "TIME"
    have hwrite : ((Storage.below s.outputPath).writeAll [(s.documents.northbound, c₁),
        (s.documents.southbound, c₂), (s.documents.combined, c₃), (s.documents.summary, c₄)]).run.run t =
          (.ok (), (((t.put ["nb", "out", "northbound.csv"] (.file c₁)).put ["nb", "out", "southbound.csv"]
            (.file c₂)).put ["nb", "out", "combined_records.csv"] (.file c₃)).put
              ["nb", "out", "run_summary.json"] (.file c₄)) := by cbv
    have hput : ∀ (x : FileTree) (place : Place) (c : Bytes), place ≠ [] →
        ∀ p, (x.put place (.file c)).get? p = some .directory → x.get? p = some .directory := by
      intro x place c hplace p h
      rw [get?_put x _ hplace] at h
      split at h
      · cases h
      · exact h
    rw [hdocuments, hwrite]
    exact ⟨_, rfl, fun p h =>
      hput _ _ _ (by decide) _ (hput _ _ _ (by decide) _ (hput _ _ _ (by decide) _ (hput _ _ _ (by decide) _ h)))⟩
  have hu := (Settings.keeps_run hrun).isTree ht
  have hlisted : ∀ p, s.IsUnlisted u p → t.get? p = some .directory := fun p hp =>
    hdirectory p (Settings.get?_of_isUnlisted hu hp)
  obtain ⟨r', v, v', hagain, hsame, honce, -, hr⟩ :=
    run_again s "TIME" "LATER" rfl ht hrun hu (SameTree.refl u) (hapart u)
  obtain rfl := hr.resolve_right fun h => by cases h.1
  exact ⟨ht, u, v, v', hrun, hu, hapart u, hlisted, honce hlisted, hagain, hsame⟩

/-- The output path climbs out of a directory that is missing, and then names a file as a directory. The first
    run makes the missing one before it fails, and so the second gets to the file. -/
theorem second_run_finds_no_directory :
    let s : Settings :=
      { northboundRoot := "nb", southboundRoot := "sb", outputPath := "new/../f/b", sorted := true }
    let t : FileTree := ⟨[(["nb"], .directory), (["sb"], .directory), (["f"], .file [120])], []⟩
    let u : FileTree := t.put ["new"] .directory
    t.IsTree ∧ (∀ p ∈ s.documentPlaces t, ¬s.IsSource u p) ∧
      (s.run "TIME").run.run t = (.error (.file .exists), u) ∧
      (s.run "TIME").run.run u = (.error (.file .notDirectory), u) := by
  intro s t u
  have ht : t.IsTree := ⟨by decide, by decide, by decide, by decide⟩
  have hapart : ∀ p ∈ s.documentPlaces t, ¬s.IsSource u p := by
    have hnames : ∀ p ∈ s.documentPlaces t, ¬p.HasExtension s.extension := by decide +kernel
    exact fun p hp hsource => hnames p hp (Settings.hasExtension_of_isSource hsource)
  have hsurvey : s.survey t = .ok ⟨[], [], 0, 0, 0⟩ := by decide +kernel
  have hsurvey' : s.survey u = .ok ⟨[], [], 0, 0, 0⟩ := by decide +kernel
  obtain ⟨c₁, c₂, c₃, c₄, hdocuments⟩ := (Survey.atlas ⟨[], [], 0, 0, 0⟩).exists_documents s.documents "TIME"
  have hfirst : ((Storage.below s.outputPath).write s.documents.northbound c₁).run.run t =
      (.error (.file .exists), u) := rfl
  have hsecond : ((Storage.below s.outputPath).write s.documents.northbound c₁).run.run u =
      (.error (.file .notDirectory), u) := rfl
  refine ⟨ht, hapart, ?_, ?_⟩
  · rw [Settings.run_run_eq, hsurvey]
    dsimp only
    rw [hdocuments, Storage.run_writeAll_cons, hfirst]
  · rw [Settings.run_run_eq, hsurvey']
    dsimp only
    rw [hdocuments, Storage.run_writeAll_cons, hsecond]

/-- The first run makes its output directory in a source tree. The path of that directory from the northbound root is
    one byte too long, so that the second run cannot list it and counts it. -/
theorem second_run_skips_new_directory :
    let s : Settings :=
      { northboundRoot := "nb" ++ List.replicate 4090 '/', southboundRoot := "sb", outputPath := "nb/outs",
        sorted := true }
    let t : FileTree := ⟨[(["nb"], .directory), (["sb"], .directory)], []⟩
    t.IsTree ∧ s.survey t = .ok ⟨[], [], 0, 0, 0⟩ ∧ ∃ u, (s.run "TIME").run.run t = (.ok "nb/outs", u) ∧
      (∀ p ∈ s.documentPlaces t, ¬s.IsSource u p) ∧ s.survey u = .ok ⟨[], [], 0, 0, 1⟩ := by
  intro s t
  have ht : t.IsTree := ⟨by decide, by decide, by decide, by decide⟩
  have hpath : Text.encode s.northboundRoot = Text.encode "nb" ++ List.replicate 4090 slash := by
    rw [Text.encode_append, Text.encode, Text.encode, List.flatMap_replicate]
    exact congrArg _ List.flatten_replicate_singleton
  have hlength : (Text.encode s.northboundRoot).length = 4092 := by
    rw [hpath, List.length_append, List.length_replicate]
    rfl
  have hroot : t.directory? s.northboundRoot = some (["nb"] : Place) := by
    rw [hpath, directory?_append_slashes (by decide) (by rw [← hpath, hlength]; decide)]
    decide
  have hlong : ¬Place.Opens s.northboundRoot ["outs"] := by
    have hlast : (Text.encode s.northboundRoot).getLast? = some slash :=
      hpath ▸ getLast?_append_slashes (Text.encode "nb") 4089
    rw [Place.opens_iff_of_slash (directory?_eq_some_iff.mp hroot).1 hlast (by decide), hlength]
    decide
  have hsouth : t.directory? s.southboundRoot = some (["sb"] : Place) := by decide
  have hsurvey : s.survey t = .ok ⟨[], [], 0, 0, 0⟩ := by
    have hnorth : t.entriesBelow ["nb"] = [] := by decide
    have hnothing : t.entriesBelow ["sb"] = [] := by decide
    rw [Settings.survey_of_no_sources ht hroot hsouth (hnorth ▸ List.forall_mem_nil _)
      (hnothing ▸ List.forall_mem_nil _), SourceTree.unlisted_of_entriesBelow_eq_nil hnorth,
      SourceTree.unlisted_of_entriesBelow_eq_nil hnothing]
    rfl
  obtain ⟨c₁, c₂, c₃, c₄, hdocuments⟩ := (Survey.atlas ⟨[], [], 0, 0, 0⟩).exists_documents s.documents "TIME"
  obtain ⟨u, hu⟩ : ∃ u : FileTree, u = ((((t.put ["nb", "outs"] .directory).put ["nb", "outs", "northbound.csv"]
      (.file c₁)).put ["nb", "outs", "southbound.csv"] (.file c₂)).put ["nb", "outs", "combined_records.csv"]
        (.file c₃)).put ["nb", "outs", "run_summary.json"] (.file c₄) := ⟨_, rfl⟩
  have hrun : (s.run "TIME").run.run t = (.ok "nb/outs", u) := by
    have hwrite : ((Storage.below s.outputPath).writeAll [(s.documents.northbound, c₁),
        (s.documents.southbound, c₂), (s.documents.combined, c₃), (s.documents.summary, c₄)]).run.run t =
          (.ok (), u) := by
      rw [hu]
      cbv
    rw [Settings.run_run_eq, hsurvey]
    dsimp only
    rw [hdocuments, hwrite]
  have hkeep := Settings.keeps_run hrun
  have htree := hkeep.isTree ht
  have hbelow : u.entriesBelow ["nb"] = [(([Text.encode "outs"] : Place), Entry.directory),
      ([Text.encode "outs", Text.encode "northbound.csv"], .file c₁),
      ([Text.encode "outs", Text.encode "southbound.csv"], .file c₂),
      ([Text.encode "outs", Text.encode "combined_records.csv"], .file c₃),
      ([Text.encode "outs", Text.encode "run_summary.json"], .file c₄)] := by
    rw [hu]
    rfl
  have hnames : ∀ e ∈ u.entriesBelow ["nb"], ¬e.1.HasExtension s.extension := by
    have hplaces : ∀ p ∈ ([["outs"], ["outs", "northbound.csv"], ["outs", "southbound.csv"],
        ["outs", "combined_records.csv"], ["outs", "run_summary.json"]] : List Place), ¬p.HasExtension s.extension := by
      decide
    rw [hbelow]
    exact fun e he => hplaces e.1 (List.mem_map_of_mem he)
  have hlisted : (SourceTree.unlisted u s.northboundRoot ["nb"]).length = 1 := by
    have hroot' := Settings.directory?_of_keeps hkeep hroot
    have hall : ∀ q, q ∈ SourceTree.unlisted u s.northboundRoot ["nb"] ↔ q ∈ [([Text.encode "outs"] : Place)] := by
      intro q
      rw [List.mem_singleton, SourceTree.mem_unlisted_iff htree hroot']
      constructor
      · rintro ⟨hne, hget, -⟩
        have hq := (mem_entriesBelow htree).mpr ⟨hne, hget⟩
        rw [hbelow] at hq
        simpa using hq
      · rintro rfl
        exact ⟨by decide, by rw [hu]; rfl, ⟨(directory?_eq_some_iff.mp hroot').1, by decide⟩, hlong⟩
    have hnodup := SourceTree.nodup_unlisted htree s.northboundRoot ["nb"]
    exact ((List.perm_ext_iff_of_nodup hnodup (List.nodup_singleton _)).mpr hall).length_eq
  refine ⟨ht, hsurvey, u, hrun, ?_, ?_⟩
  · have hplaces : ∀ p ∈ s.documentPlaces t, ¬p.HasExtension s.extension := by decide +kernel
    exact fun p hp hsource => hplaces p hp (Settings.hasExtension_of_isSource hsource)
  · have hnothing : u.entriesBelow ["sb"] = [] := by
      rw [hu]
      rfl
    rw [Settings.survey_of_no_sources htree (Settings.directory?_of_keeps hkeep hroot)
      (Settings.directory?_of_keeps hkeep hsouth) hnames (hnothing ▸ List.forall_mem_nil _), hlisted,
      SourceTree.unlisted_of_entriesBelow_eq_nil hnothing]
    rfl

end EndpointAtlas
