import EndpointAtlas.Proofs.FileTree.Below
import EndpointAtlas.Proofs.Mapping.Outcome
import EndpointAtlas.Proofs.Text.Bytewise

/-! Documents whose names lead to one place. Settings that pass their check have four different names, but the
    names are compared as they are written, and the file system follows them: dots, slashes and steps up can
    take different names to one file. Of the documents at one place the last is what a run leaves. The check is
    enough where each name is a single part. -/

namespace EndpointAtlas

/-! ### Places of names -/

namespace FileTree
open Text

/-- The name is followed down from the directory it is joined to: it does not begin at the top, and it never
    goes up. -/
def GoesDown (name : Bytes) : Prop := name.head? ≠ some slash ∧ ∀ piece ∈ pieces name, piece ≠ [dot, dot]

instance : DecidablePred GoesDown := fun _ => inferInstanceAs (Decidable (_ ∧ _))

/-- The names of directories and files in a name: its pieces but for single dots. -/
def parts (name : Bytes) : List Bytes := (pieces name).filter (· ≠ [dot])

variable {name : Bytes}

theorem foldl_follow {names : List Bytes} (h : ∀ name ∈ names, name ≠ [dot, dot]) (p : Place) :
    names.foldl Place.follow p = p ++ names.filter (· ≠ [dot]) := by
  induction names generalizing p with
  | nil => exact (List.append_nil p).symm
  | cons name names ih =>
    obtain ⟨hname, hnames⟩ := List.forall_mem_cons.mp h
    rw [List.foldl_cons, ih hnames]
    by_cases hdot : name = [dot]
    · rw [List.filter_cons_of_neg (by simpa using hdot), Place.follow, if_pos hdot]
    · rw [List.filter_cons_of_pos (by simpa using hdot), follow_of_not_isDots (not_or.mpr ⟨hdot, hname⟩),
        List.append_assoc, List.singleton_append]

/-- A name that goes down adds its parts to the place it is joined to. -/
theorem placeOf_joinPath (h : GoesDown name) (t : FileTree) (base : Bytes) :
    t.placeOf (joinPath base name) = t.placeOf base ++ parts name := by
  rw [placeOf, pieces_joinPath h.1, origin_joinPath h.1, List.foldl_append, foldl_follow h.2]
  rfl

theorem parts_of_isName (h : IsName name) : parts name = [name] := by
  rw [parts, pieces_of_isName h]
  exact List.filter_eq_self.mpr fun n hn => decide_eq_true (List.mem_singleton.mp hn ▸ fun hdot => h.2.2 (Or.inl hdot))

theorem goesDown_of_isName (h : IsName name) : GoesDown name := by
  refine ⟨h.head?, ?_⟩
  rw [pieces_of_isName h]
  exact List.forall_mem_singleton.mpr fun hup => h.2.2 (Or.inr hup)

end FileTree

/-! ### Runs of checked settings -/

namespace Settings
open FileTree
variable {s : Settings} {t : FileTree}

/-- Settings that pass have names that are different texts. -/
theorem nodup_documents_of_check (h : s.check = .ok ()) : s.documents.toList.Nodup := by
  unfold check at h
  simp only [except_bind_eq_ok] at h
  obtain ⟨-, -, -, -, -, -, -, -, -, -, hnames⟩ := h
  exact (checkNames_eq_ok_iff.mp hnames).2.1

theorem nodup_documentPlaces_iff (h : ∀ name ∈ s.documents.toList, GoesDown name) :
    (s.documentPlaces t).Nodup ↔ (s.documents.toList.map fun name : Text => parts name).Nodup := by
  have hplaces : s.documentPlaces t =
      (s.documents.toList.map fun name : Text => parts name).map (t.placeOf s.outputPath ++ ·) := by
    rw [List.map_map]
    exact List.map_congr_left fun name hname => placeOf_joinPath (h name hname) t s.outputPath
  rw [hplaces]
  exact List.nodup_map_iff (List.append_right_injective _)

theorem nodup_documentPlaces_of_isName (hcheck : s.check = .ok ()) (h : ∀ name ∈ s.documents.toList, IsName name) :
    (s.documentPlaces t).Nodup := by
  rw [nodup_documentPlaces_iff fun name hname => goesDown_of_isName (h name hname),
    List.map_congr_left fun name hname => parts_of_isName (h name hname)]
  exact (List.nodup_map_iff fun _ _ hsame => Text.encode_injective (List.singleton_inj.mp hsame)).mpr
    (nodup_documents_of_check hcheck)

end Settings

open FileTree

/-- After a run with settings that pass their check, the documents at one place are all read with the content of
    the last of them. So each document is read with its own content if they lie at four places. Names that
    never go up do so exactly if no two have the same parts, and names of a single part always do. -/
theorem run_leaves_last_document_at_place (s : Settings) (time : Text) {t u : FileTree} {location : Text}
    (hcheck : s.check = .ok ()) (h : (s.run time).run.run t = (.ok location, u)) :
    s.documents.toList.Nodup ∧ ∃ found, s.survey t = .ok found ∧
      let documents := found.atlas.documents s.documents time
      let place := Storage.place s.outputPath t
      documents.map Prod.fst = s.documents.toList ∧
      (∀ earlier e later, documents = earlier ++ e :: later → (∀ d ∈ later, place d ≠ place e) →
        ∀ d ∈ documents, place d = place e → u.read (joinPath s.outputPath d.1) = .ok e.2) ∧
      ((s.documentPlaces t).Nodup → ∀ d ∈ documents, u.read (joinPath s.outputPath d.1) = .ok d.2) ∧
      ((∀ name ∈ s.documents.toList, GoesDown name) →
        ((s.documentPlaces t).Nodup ↔ (s.documents.toList.map fun name : Text => parts name).Nodup)) ∧
      ((∀ name ∈ s.documents.toList, IsName name) → (s.documentPlaces t).Nodup) := by
  refine ⟨Settings.nodup_documents_of_check hcheck, ?_⟩
  cases hroot : s.missingRoot? t with
  | some root =>
    rw [Settings.run_of_missingRoot hroot] at h
    cases h
  | none =>
    obtain ⟨found, hsurvey⟩ := Settings.survey_eq_ok_of_missingRoot hroot
    refine ⟨found, hsurvey, ?_⟩
    intro documents place
    obtain ⟨-, hwrite⟩ | ⟨f, hf, -⟩ := Settings.run_eq_of_survey hsurvey h
    · refine ⟨rfl, ?_, ?_, Settings.nodup_documentPlaces_iff, Settings.nodup_documentPlaces_of_isName hcheck⟩
      · intro earlier e later hdocuments hlast d hd hplace
        rw [show found.atlas.documents s.documents time = _ from hdocuments] at hwrite
        exact Storage.read_last_of_writeAll_below hwrite hlast (hdocuments ▸ hd) hplace
      · exact Storage.read_of_writeAll_below hwrite
    · cases hf

/-- Names with a directory, a dot and a second slash, all below the output path. -/
theorem run_leaves_documents_in_tables :
    let s : Settings :=
      { northboundRoot := "nb", southboundRoot := "sb", outputPath := "out"
        documents := { northbound := "tables//north.csv", southbound := "tables/./south.csv" } }
    let t : FileTree := ⟨[(["nb"], .directory), (["sb"], .directory)], []⟩
    s.check = .ok () ∧ s.survey t = .ok ⟨[], [], 0, 0, 0⟩ ∧ ∃ u, (s.run "TIME").run.run t = (.ok "out", u) ∧
      ∀ d ∈ (Survey.atlas ⟨[], [], 0, 0, 0⟩).documents s.documents "TIME",
        u.read (joinPath s.outputPath d.1) = .ok d.2 := by
  intro s t
  have hcheck : s.check = .ok () := by decide +kernel
  have hsurvey : s.survey t = .ok ⟨[], [], 0, 0, 0⟩ := by decide +kernel
  obtain ⟨u, hrun⟩ : ∃ u, (s.run "TIME").run.run t = (.ok "out", u) := by
    obtain ⟨c₁, c₂, c₃, c₄, hdocuments⟩ := (Survey.atlas ⟨[], [], 0, 0, 0⟩).exists_documents s.documents "TIME"
    have hwrite : ((Storage.below s.outputPath).writeAll [(s.documents.northbound, c₁),
        (s.documents.southbound, c₂), (s.documents.combined, c₃), (s.documents.summary, c₄)]).run.run t =
          (.ok (), (((((t.put ["out"] .directory).put ["out", "tables"] .directory).put
            ["out", "tables", "north.csv"] (.file c₁)).put ["out", "tables", "south.csv"] (.file c₂)).put
              ["out", "combined_records.csv"] (.file c₃)).put ["out", "run_summary.json"] (.file c₄)) := by cbv
    rw [Settings.run_run_eq, hsurvey]
    dsimp only
    rw [hdocuments, hwrite]
    exact ⟨_, rfl⟩
  obtain ⟨-, found, hfound, -, -, hown, hplaces, -⟩ := run_leaves_last_document_at_place s "TIME" hcheck hrun
  obtain rfl := Except.ok.inj (hsurvey.symm.trans hfound)
  exact ⟨hcheck, hsurvey, u, hrun, hown ((hplaces (by decide +kernel)).mpr (by decide +kernel))⟩

/-- A dot before a name makes it another text and leaves it the same file: the settings pass, the run succeeds,
    and the southbound document stands where the northbound one was written. -/
theorem southbound_document_over_northbound :
    let s : Settings :=
      { northboundRoot := "nb", southboundRoot := "sb", outputPath := "out"
        documents := { northbound := "a.csv", southbound := "./a.csv" } }
    let t : FileTree := ⟨[(["nb"], .directory), (["sb"], .directory)], []⟩
    let a : Atlas := Survey.atlas ⟨[], [], 0, 0, 0⟩
    let northbound : Bytes := Text.encode (Sheet.writeEndpoints a.endpoints)
    let southbound : Bytes := Text.encode (Sheet.writeBackends a.backends)
    s.check = .ok () ∧ s.survey t = .ok ⟨[], [], 0, 0, 0⟩ ∧
      (s.documents.northbound, northbound) ∈ a.documents s.documents "TIME" ∧
      ∃ u, (s.run "TIME").run.run t = (.ok "out", u) ∧
        u.read (joinPath s.outputPath s.documents.northbound) = .ok southbound ∧ southbound ≠ northbound := by
  intro s t a northbound southbound
  have hsurvey : s.survey t = .ok ⟨[], [], 0, 0, 0⟩ := by decide +kernel
  have hwrite : ∀ c₁ c₂ c₃ c₄ : Bytes, ∃ u, ((Storage.below s.outputPath).writeAll [(s.documents.northbound, c₁),
      (s.documents.southbound, c₂), (s.documents.combined, c₃), (s.documents.summary, c₄)]).run.run t = (.ok (), u) ∧
        u.read (joinPath s.outputPath s.documents.northbound) = .ok c₂ := by
    intro c₁ c₂ c₃ c₄
    exact ⟨((((t.put ["out"] .directory).put ["out", "a.csv"] (.file c₁)).put ["out", "a.csv"] (.file c₂)).put
      ["out", "combined_records.csv"] (.file c₃)).put ["out", "run_summary.json"] (.file c₄), by cbv, by cbv⟩
  obtain ⟨c₃, c₄, hdocuments⟩ : ∃ c₃ c₄, a.documents s.documents "TIME" = [(s.documents.northbound, northbound),
      (s.documents.southbound, southbound), (s.documents.combined, c₃), (s.documents.summary, c₄)] := ⟨_, _, rfl⟩
  obtain ⟨u, hu, hread⟩ := hwrite northbound southbound c₃ c₄
  refine ⟨by decide +kernel, hsurvey, List.mem_cons_self, u, ?_, hread, by decide +kernel⟩
  rw [Settings.run_run_eq, hsurvey]
  dsimp only
  rw [show Atlas.documents _ _ _ = _ from hdocuments, hu]

end EndpointAtlas
