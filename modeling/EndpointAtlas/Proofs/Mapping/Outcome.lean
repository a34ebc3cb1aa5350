import EndpointAtlas.Mapping
import EndpointAtlas.Proofs.Atlas.Documents
import EndpointAtlas.Proofs.FileTree.Growth
import Mathlib

/-! What a run leaves, whether it succeeds or fails. It looks at both source trees before it writes, so a run
    without one of them changes nothing; any other run changes no files but its documents. They are written
    one after the other, so a failure finds the earlier ones complete and the later ones untouched. -/

namespace EndpointAtlas
open FileTree

/-! ### The write that fails -/

namespace Storage

/-- The documents before the one at `k` are written from the state `s`, and writing that one fails with
    `f` and leaves `s'`. -/
def FailsAt {σ : Type} (storage : Storage σ) (documents : List (Text × Bytes)) (k : Nat) (s : σ) (f : Fault)
    (s' : σ) : Prop :=
  ∃ d v, documents[k]? = some d ∧ (storage.writeAll (documents.take k)).run.run s = (.ok (), v) ∧
    (storage.write d.1 d.2).run.run v = (.error f, s')

section Any
variable {σ : Type} {storage : Storage σ} {documents : List (Text × Bytes)} {s s' : σ} {f : Fault}

theorem run_writeAll_append {later : List (Text × Bytes)} {v : σ}
    (h : (storage.writeAll documents).run.run s = (.ok (), v)) :
    (storage.writeAll (documents ++ later)).run.run s = (storage.writeAll later).run.run v := by
  induction documents generalizing s with
  | nil =>
    cases h
    rfl
  | cons d documents ih =>
    rw [run_writeAll_cons] at h
    rw [List.cons_append, run_writeAll_cons]
    split at h
    · exact ih h
    · cases h

theorem exists_run_of_writeAll_append {later : List (Text × Bytes)}
    (h : (storage.writeAll (documents ++ later)).run.run s = (.ok (), s')) :
    ∃ v, (storage.writeAll documents).run.run s = (.ok (), v) ∧ (storage.writeAll later).run.run v = (.ok (), s') := by
  induction documents generalizing s with
  | nil => exact ⟨s, rfl, h⟩
  | cons d documents ih =>
    rw [List.cons_append, run_writeAll_cons] at h
    rw [run_writeAll_cons]
    split at h
    · exact ih h
    · cases h

/-- Writing documents fails with the write of one of them, and with the fault of that write. -/
theorem run_writeAll_eq_error_iff :
    (storage.writeAll documents).run.run s = (.error f, s') ↔ ∃ k, storage.FailsAt documents k s f s' := by
  constructor
  · intro h
    induction documents generalizing s with
    | nil => cases h
    | cons d documents ih =>
      rw [run_writeAll_cons] at h
      split at h
      · next v hwrite =>
        obtain ⟨k, e, w, he, hbefore, hfails⟩ := ih h
        refine ⟨k + 1, e, w, he, ?_, hfails⟩
        rw [List.take_succ_cons, run_writeAll_cons, hwrite]
        exact hbefore
      · next hwrite =>
        cases h
        exact ⟨0, d, s, rfl, rfl, hwrite⟩
  · rintro ⟨k, d, v, hd, hbefore, hfails⟩
    obtain ⟨hk, rfl⟩ := List.getElem?_eq_some_iff.mp hd
    rw [← List.take_append_drop k documents, run_writeAll_append hbefore, List.drop_eq_getElem_cons hk,
      run_writeAll_cons, hfails]

end Any

/-! ### Documents below a base directory -/

section Below
variable {base : Text} {d : Text × Bytes} {documents : List (Text × Bytes)} {t u : FileTree}

theorem run_write_below_eq (base name : Text) (content : Bytes) (t : FileTree) :
    ((below base).write name content).run.run t =
      match (writeWithin (joinPath base name) content).run.run t with
      | (.ok (), u) => (.ok (), u)
      | (.error e, u) => (.error (.file e), u) := by
  show ((writeWithin (joinPath base name) content).adapt Fault.file).run.run t = _
  rw [ExceptT.run_adapt, StateT.run_map]
  generalize (writeWithin (joinPath base name) content).run.run t = r
  obtain ⟨e | a, u⟩ := r <;> rfl

/-- The place of a document below a base directory. -/
def place (base : Text) (t : FileTree) (d : Text × Bytes) : Place := t.placeOf (joinPath base d.1)

theorem place_congr (h : u.current = t.current) (d : Text × Bytes) : place base u d = place base t d :=
  placeOf_congr h _

theorem keeps_write_below_of_ok (h : ((below base).write d.1 d.2).run.run t = (.ok (), u)) :
    Keeps [place base t d] t u ∧ u.content? (place base t d) = some d.2 := by
  rw [run_write_below_eq] at h
  split at h
  · next hwrite =>
    cases h
    exact keeps_writeWithin_of_ok hwrite
  · cases h

theorem keeps_write_below_of_error {f : Fault} (h : ((below base).write d.1 d.2).run.run t = (.error f, u)) :
    Keeps [] t u ∧ ∃ e, f = .file e := by
  rw [run_write_below_eq] at h
  split at h
  · cases h
  · next e v hwrite =>
    cases h
    exact ⟨keeps_writeWithin_of_error hwrite, e, rfl⟩

theorem keeps_writeAll_below_of_ok (h : ((below base).writeAll documents).run.run t = (.ok (), u)) :
    Keeps (documents.map (place base t)) t u := by
  induction documents generalizing t with
  | nil =>
    cases h
    exact Keeps.refl _
  | cons d documents ih =>
    rw [run_writeAll_cons] at h
    split at h
    · next v hwrite =>
      obtain ⟨hd, -⟩ := keeps_write_below_of_ok hwrite
      have hrest := ih h
      rw [List.map_congr_left fun e _ => place_congr hd.current e] at hrest
      exact (hd.mono (by simp)).trans (hrest.mono (by simp))
    · cases h

theorem keeps_of_failsAt {k : Nat} {f : Fault} (h : (below base).FailsAt documents k t f u) :
    Keeps ((documents.take k).map (place base t)) t u ∧ ∃ e, f = .file e := by
  obtain ⟨d, v, -, hbefore, hfails⟩ := h
  obtain ⟨hv, hfault⟩ := keeps_write_below_of_error hfails
  exact ⟨(keeps_writeAll_below_of_ok hbefore).trans (hv.mono (List.nil_subset _)), hfault⟩

theorem keeps_writeAll_below {r : Except Fault Unit} (h : ((below base).writeAll documents).run.run t = (r, u)) :
    Keeps (documents.map (place base t)) t u := by
  cases r with
  | ok a => exact keeps_writeAll_below_of_ok h
  | error f =>
    obtain ⟨k, hfails⟩ := run_writeAll_eq_error_iff.mp h
    exact (keeps_of_failsAt hfails).1.mono (List.map_subset _ (List.take_subset _ _))

/-- A document has its content once it is written, and the later ones leave all other places as they are. -/
theorem exists_keeps_of_writeAll_below {earlier later : List (Text × Bytes)}
    (h : ((below base).writeAll (earlier ++ d :: later)).run.run t = (.ok (), u)) :
    ∃ v, v.current = t.current ∧ v.read (joinPath base d.1) = .ok d.2 ∧ v.content? (place base t d) = some d.2 ∧
      Keeps (later.map (place base t)) v u := by
  obtain ⟨s, hearlier, h⟩ := exists_run_of_writeAll_append h
  have hs : s.current = t.current := (keeps_writeAll_below_of_ok hearlier).current
  rw [run_writeAll_cons] at h
  split at h
  · next v hwrite =>
    obtain ⟨hd, hcontent⟩ := keeps_write_below_of_ok hwrite
    have hv : v.current = t.current := hd.current.trans hs
    have hlater := keeps_writeAll_below_of_ok h
    rw [List.map_congr_left fun e _ => place_congr hv e] at hlater
    rw [place_congr hs d] at hcontent
    exact ⟨v, hv, read_of_run_write_below hwrite, hcontent, hlater⟩
  · cases h

/-- Where several documents lie at one place, each of them is read with the content of the last. -/
theorem read_last_of_writeAll_below {earlier later : List (Text × Bytes)} {e : Text × Bytes}
    (h : ((below base).writeAll (earlier ++ e :: later)).run.run t = (.ok (), u))
    (hlast : ∀ d ∈ later, place base t d ≠ place base t e) (hd : d ∈ earlier ++ e :: later)
    (hplace : place base t d = place base t e) : u.read (joinPath base d.1) = .ok e.2 := by
  have hcontent : u.content? (place base t e) = some e.2 := by
    obtain ⟨v, -, -, hv, hkeep⟩ := exists_keeps_of_writeAll_below h
    rw [hkeep.content _ fun hmem => ?_, hv]
    obtain ⟨d', hd', hsame⟩ := List.mem_map.mp hmem
    exact hlast d' hd' hsame
  obtain ⟨before, behind, hdocuments⟩ := List.append_of_mem hd
  rw [hdocuments] at h
  obtain ⟨v, hv, hread, -, hkeep⟩ := exists_keeps_of_writeAll_below h
  obtain ⟨c, hread', hc⟩ := read_of_keeps hkeep hread
  rw [placeOf_congr hv (joinPath base d.1), ← place, hplace, hcontent] at hc
  rw [hread', ← Option.some.inj hc]

/-- Documents at different places do not overwrite each other. -/
theorem read_of_writeAll_below (h : ((below base).writeAll documents).run.run t = (.ok (), u))
    (hplaces : (documents.map (place base t)).Nodup) : ∀ d ∈ documents, u.read (joinPath base d.1) = .ok d.2 := by
  intro d hd
  obtain ⟨earlier, later, rfl⟩ := List.append_of_mem hd
  rw [List.map_append, List.map_cons] at hplaces
  have hlast : place base t d ∉ later.map (place base t) :=
    (List.nodup_cons.mp (List.nodup_append.mp hplaces).2.1).1
  exact read_last_of_writeAll_below h (fun e he hsame => hlast (List.mem_map.mpr ⟨e, he, hsame⟩)) hd rfl

/-- When a write fails, the earlier documents are complete and the others as they were. -/
theorem read_of_failsAt {k : Nat} {f : Fault} (h : (below base).FailsAt documents k t f u)
    (hplaces : (documents.map (place base t)).Nodup) :
    (∀ d ∈ documents.take k, u.read (joinPath base d.1) = .ok d.2) ∧
      ∀ d ∈ documents.drop k, u.content? (place base t d) = t.content? (place base t d) := by
  constructor
  · obtain ⟨d, v, -, hbefore, hfails⟩ := h
    have hv := (keeps_write_below_of_error hfails).1
    intro e he
    have hsub : (documents.take k).Sublist documents := List.take_sublist k documents
    have hread := read_of_writeAll_below hbefore ((hsub.map _).nodup hplaces) e he
    obtain ⟨c, hread', hc⟩ := read_of_keeps hv hread
    obtain ⟨c', hread'', hc'⟩ := read_of_keeps (Keeps.refl (W := []) v) hread
    rw [hread] at hread''
    cases hread''
    rw [hv.content _ List.not_mem_nil, hc'] at hc
    rw [hread', ← Option.some.inj hc]
  · intro d hd
    refine (keeps_of_failsAt h).1.content _ fun hmem => ?_
    rw [← List.take_append_drop k documents, List.map_append] at hplaces
    exact (List.nodup_append.mp hplaces).2.2 _ hmem _ (List.mem_map_of_mem hd) rfl

end Below

end Storage

/-! ### The run -/

namespace Settings
variable {s : Settings} {t u : FileTree} {time : Text}

/-- The root that a run misses: it looks for the northbound one first. -/
def missingRoot? (s : Settings) (t : FileTree) : Option Text :=
  if t.directory? s.northboundRoot = none then some s.northboundRoot
  else if t.directory? s.southboundRoot = none then some s.southboundRoot
  else none

/-- The places of the documents. -/
def documentPlaces (s : Settings) (t : FileTree) : List Place :=
  s.documents.toList.map fun name => t.placeOf (joinPath s.outputPath name)

theorem survey_eq_error_iff {f : Fault} :
    s.survey t = .error f ↔ ∃ root, s.missingRoot? t = some root ∧ f = .missingRoot root := by
  unfold survey missingRoot? SourceTree.collect
  cases hn : t.directory? s.northboundRoot with
  | none => simp [bind, Except.bind, eq_comm]
  | some p =>
    cases hs : t.directory? s.southboundRoot with
    | none => simp [bind, Except.bind, eq_comm]
    | some q => simp [bind, Except.bind, pure, Except.pure]

/-- The phases of a run one after the other, whatever the survey may be. -/
theorem run_of_phases (s : Settings) (time : Text) (look : Task FileTree Survey) (t : FileTree) :
    ({ s.phases time with survey := look }.run).run.run t =
      match look.run.run t with
      | (.error f, u) => (.error f, u)
      | (.ok found, u) =>
        match ((Storage.below s.outputPath).writeAll (found.atlas.documents s.documents time)).run.run u with
        | (.ok (), v) => (.ok s.outputPath, v)
        | (.error f, v) => (.error f, v) := by
  show (look >>= fun found =>
    found.atlas.publish (Storage.below s.outputPath) s.outputPath s.documents time).run.run t = _
  rw [run_bind_eq]
  generalize look.run.run t = x
  obtain ⟨f | found, u⟩ := x
  · rfl
  · dsimp only
    rw [Atlas.run_publish]
    generalize StateT.run (ExceptT.run (Storage.writeAll _ _)) u = r
    obtain ⟨f | a, v⟩ := r <;> rfl

theorem run_survey (s : Settings) (time : Text) (t : FileTree) :
    (s.phases time).survey.run.run t = (s.survey t, t) := by
  have hget : (get : Task FileTree FileTree).run.run t = (.ok t, t) := rfl
  unfold phases
  dsimp only
  rw [run_bind_of_ok hget]
  cases s.survey t <;> rfl

theorem run_run_eq (s : Settings) (time : Text) (t : FileTree) : (s.run time).run.run t =
    match s.survey t with
    | .error f => (.error f, t)
    | .ok found =>
      match ((Storage.below s.outputPath).writeAll (found.atlas.documents s.documents time)).run.run t with
      | (.ok (), u) => (.ok s.outputPath, u)
      | (.error f, u) => (.error f, u) := by
  refine (run_of_phases s time (s.phases time).survey t).trans ?_
  rw [run_survey]
  cases s.survey t <;> rfl

theorem survey_eq_ok_of_missingRoot (h : s.missingRoot? t = none) : ∃ found, s.survey t = .ok found := by
  cases hsurvey : s.survey t with
  | ok found => exact ⟨found, rfl⟩
  | error f =>
    obtain ⟨root, hroot, -⟩ := survey_eq_error_iff.mp hsurvey
    rw [h] at hroot
    cases hroot

theorem run_of_missingRoot {root : Text} (h : s.missingRoot? t = some root) :
    (s.run time).run.run t = (.error (.missingRoot root), t) := by
  rw [run_run_eq, survey_eq_error_iff.mpr ⟨root, h, rfl⟩]

theorem run_eq_of_survey {found : Survey} {r : Except Fault Text} (hsurvey : s.survey t = .ok found)
    (h : (s.run time).run.run t = (r, u)) :
    let documents := found.atlas.documents s.documents time
    (r = .ok s.outputPath ∧ ((Storage.below s.outputPath).writeAll documents).run.run t = (.ok (), u)) ∨
      ∃ f, r = .error f ∧ ((Storage.below s.outputPath).writeAll documents).run.run t = (.error f, u) := by
  intro documents
  rw [run_run_eq, hsurvey] at h
  dsimp only at h
  split at h
  · next hwrite =>
    cases h
    exact Or.inl ⟨rfl, hwrite⟩
  · next f v hwrite =>
    cases h
    exact Or.inr ⟨f, rfl, hwrite⟩

theorem keeps_run {r : Except Fault Text} (h : (s.run time).run.run t = (r, u)) : Keeps (s.documentPlaces t) t u := by
  cases hroot : s.missingRoot? t with
  | some root =>
    rw [run_of_missingRoot hroot] at h
    cases h
    exact Keeps.refl _
  | none =>
    obtain ⟨found, hsurvey⟩ := survey_eq_ok_of_missingRoot hroot
    rcases run_eq_of_survey hsurvey h with ⟨-, hwrite⟩ | ⟨f, -, hwrite⟩
    · exact Storage.keeps_writeAll_below hwrite
    · exact Storage.keeps_writeAll_below hwrite

end Settings

/-- A run misses a root and then changes nothing, or it changes no files but its documents. It fails for
    want of a root, or with the first write that fails: then the documents before that one are complete and
    the others as they were, if no two of them lie at one place. -/
theorem run_changes_documents_only (s : Settings) (time : Text) {t u : FileTree} {r : Except Fault Text}
    (h : (s.run time).run.run t = (r, u)) :
    (∀ root, r = .error (.missingRoot root) ↔ s.missingRoot? t = some root) ∧
    ((∃ root, r = .error (.missingRoot root)) → u = t) ∧
    (∀ p, u.content? p ≠ t.content? p → p ∈ s.documentPlaces t) ∧
    (s.missingRoot? t = none → ∃ found, s.survey t = .ok found ∧
      let storage := Storage.below s.outputPath
      let documents := found.atlas.documents s.documents time
      (∀ f, r = .error f ↔ ∃ k, storage.FailsAt documents k t f u) ∧
      ∀ k f v, storage.FailsAt documents k t f v → r = .error f ∧ u = v ∧
        ((s.documentPlaces t).Nodup →
          (∀ d ∈ documents.take k, u.read (joinPath s.outputPath d.1) = .ok d.2) ∧
          ∀ d ∈ documents.drop k,
            u.content? (Storage.place s.outputPath t d) = t.content? (Storage.place s.outputPath t d))) := by
  have hmissing : ∀ root, r = .error (.missingRoot root) ↔ s.missingRoot? t = some root := by
    intro root
    constructor
    · rintro rfl
      cases hroot : s.missingRoot? t with
      | some root' =>
        rw [Settings.run_of_missingRoot hroot] at h
        cases h
        rfl
      | none =>
        obtain ⟨found, hsurvey⟩ := Settings.survey_eq_ok_of_missingRoot hroot
        rcases Settings.run_eq_of_survey hsurvey h with ⟨hr, -⟩ | ⟨f, hr, hwrite⟩
        · cases hr
        · obtain ⟨k, hfails⟩ := Storage.run_writeAll_eq_error_iff.mp hwrite
          obtain ⟨e, rfl⟩ := (Storage.keeps_of_failsAt hfails).2
          cases hr
    · intro hroot
      rw [Settings.run_of_missingRoot hroot] at h
      cases h
      rfl
  refine ⟨hmissing, ?_, fun p hp => ?_, fun hroot => ?_⟩
  · rintro ⟨root, hr⟩
    rw [Settings.run_of_missingRoot ((hmissing root).mp hr)] at h
    cases h
    rfl
  · by_contra hplace
    exact hp ((Settings.keeps_run h).content p hplace)
  · obtain ⟨found, hsurvey⟩ := Settings.survey_eq_ok_of_missingRoot hroot
    refine ⟨found, hsurvey, ?_⟩
    intro storage documents
    have herror : ∀ f v, (storage.writeAll documents).run.run t = (.error f, v) → r = .error f ∧ u = v := by
      intro f v hwrite
      rcases Settings.run_eq_of_survey hsurvey h with ⟨-, hwrite'⟩ | ⟨g, rfl, hwrite'⟩
      · cases hwrite.symm.trans hwrite'
      · cases hwrite.symm.trans hwrite'
        exact ⟨rfl, rfl⟩
    refine ⟨fun f => ?_, fun k f v hfails => ?_⟩
    · rw [← Storage.run_writeAll_eq_error_iff]
      constructor
      · rintro rfl
        rcases Settings.run_eq_of_survey hsurvey h with ⟨hr, -⟩ | ⟨g, hr, hwrite⟩
        · cases hr
        · cases hr
          exact hwrite
      · exact fun hwrite => (herror f u hwrite).1
    · obtain ⟨hr, rfl⟩ := herror f v (Storage.run_writeAll_eq_error_iff.mpr ⟨k, hfails⟩)
      exact ⟨hr, rfl, Storage.read_of_failsAt hfails⟩

/-- A directory stands where the third document belongs: the first two are written, one of them over an
    older file, and the summary of an earlier run stays. -/
theorem run_stopped_at_third_document :
    let s : Settings := { northboundRoot := "nb", southboundRoot := "sb", outputPath := "out/./new/.." }
    let t : FileTree := ⟨[(["nb"], .directory), (["sb"], .directory), (["out"], .directory),
      (["out", "northbound.csv"], .file [1]), (["out", "combined_records.csv"], .directory),
      (["out", "run_summary.json"], .file [2])], []⟩
    let storage := Storage.below s.outputPath
    let documents := (Survey.atlas ⟨[], [], 0, 0, 0⟩).documents s.documents "TIME"
    s.survey t = .ok ⟨[], [], 0, 0, 0⟩ ∧ (s.documentPlaces t).Nodup ∧
      ∃ u, (s.run "TIME").run.run t = (.error (.file .isDirectory), u) ∧
        storage.FailsAt documents 2 t (.file .isDirectory) u ∧
        (∀ d ∈ documents.take 2, u.read (joinPath s.outputPath d.1) = .ok d.2) ∧
        ∀ d ∈ documents.drop 2,
          u.content? (Storage.place s.outputPath t d) = t.content? (Storage.place s.outputPath t d) := by
  intro s t storage documents
  have hsurvey : s.survey t = .ok ⟨[], [], 0, 0, 0⟩ := by decide +kernel
  have hplaces : (s.documentPlaces t).Nodup := by decide +kernel
  obtain ⟨u, hfails⟩ : ∃ u, storage.FailsAt documents 2 t (.file .isDirectory) u := by
    obtain ⟨c₁, c₂, c₃, c₄, (hdocuments : documents = _)⟩ :=
      (Survey.atlas ⟨[], [], 0, 0, 0⟩).exists_documents s.documents "TIME"
    let first := (t.put ["out", "new"] .directory).put ["out", "northbound.csv"] (.file c₁)
    let second := first.put ["out", "southbound.csv"] (.file c₂)
    have hfirst : (storage.write s.documents.northbound c₁).run.run t = (.ok (), first) := by cbv
    have hsecond : (storage.write s.documents.southbound c₂).run.run first = (.ok (), second) := by cbv
    have hthird : (storage.write s.documents.combined c₃).run.run second =
        (.error (.file .isDirectory), second) := by cbv
    rw [hdocuments]
    refine ⟨second, (s.documents.combined, c₃), second, rfl, ?_, hthird⟩
    show (storage.writeAll [_, _]).run.run t = _
    rw [Storage.run_writeAll_cons, hfirst]
    dsimp only
    rw [Storage.run_writeAll_cons, hsecond]
    rfl
  have hrun : (s.run "TIME").run.run t = (.error (.file .isDirectory), u) := by
    rw [Settings.run_run_eq, hsurvey]
    dsimp only
    rw [Storage.run_writeAll_eq_error_iff.mpr ⟨2, hfails⟩]
  have hroot : s.missingRoot? t = none := by decide +kernel
  obtain ⟨found, hfound, -, hleft⟩ := (run_changes_documents_only s "TIME" hrun).2.2.2 hroot
  obtain rfl := Except.ok.inj (hsurvey.symm.trans hfound)
  exact ⟨hsurvey, hplaces, u, hrun, hfails, (hleft 2 _ u hfails).2.2 hplaces⟩

end EndpointAtlas
