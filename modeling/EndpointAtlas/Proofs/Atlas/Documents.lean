import EndpointAtlas.Proofs.Atlas.Summary
import EndpointAtlas.Proofs.Join.Relation
import EndpointAtlas.Proofs.Sheet.NormalForm
import EndpointAtlas.Run

/-! The documents of a run say the same about it. The files of records hold what was found, one row for each
    record, and the summary counts and names what the records in them have in common. So the four documents
    can be checked against each other without the sources that they were made from. -/

namespace EndpointAtlas
open Text

/-! ### Writing to any storage -/

namespace Storage
variable {σ : Type} {storage : Storage σ}

/-- The storage accepts every document, and then holds it besides those that it held before. `files` is what
    it holds under each name. -/
def Accepts (storage : Storage σ) (files : σ → Text → Option Bytes) : Prop :=
  ∀ name content s, ∃ s', (storage.write name content).run.run s = (.ok (), s') ∧
    ∀ n, files s' n = if n = name then some content else files s n

theorem run_writeAll_cons (name : Text) (content : Bytes) (documents : List (Text × Bytes)) (s : σ) :
    (storage.writeAll ((name, content) :: documents)).run.run s =
      match (storage.write name content).run.run s with
      | (.ok (), s') => (storage.writeAll documents).run.run s'
      | (.error f, s') => (.error f, s') := by
  show (ExceptT.run (storage.write name content >>= fun _ => storage.writeAll documents)).run s = _
  rw [ExceptT.run_bind, StateT.run_bind]
  generalize StateT.run (ExceptT.run (storage.write name content)) s = r
  obtain ⟨f | a, s'⟩ := r
  · rfl
  · rfl

/-- Each document is there afterwards, and under any other name there is what was there before. -/
theorem run_writeAll_of_accepts {files : σ → Text → Option Bytes} (h : storage.Accepts files)
    {documents : List (Text × Bytes)} (hnames : (documents.map (·.1)).Nodup) (s : σ) :
    ∃ s', (storage.writeAll documents).run.run s = (.ok (), s') ∧
      (∀ d ∈ documents, files s' d.1 = some d.2) ∧
      ∀ n, n ∉ documents.map (·.1) → files s' n = files s n := by
  induction documents generalizing s with
  | nil => exact ⟨s, rfl, (fun _ hd => nomatch hd), fun _ _ => rfl⟩
  | cons d documents ih =>
    obtain ⟨hd, hnames⟩ := List.nodup_cons.mp hnames
    obtain ⟨s₁, hwrite, hfiles₁⟩ := h d.1 d.2 s
    obtain ⟨s₂, hrest, hin, hout⟩ := ih hnames s₁
    refine ⟨s₂, ?_, fun e he => ?_, fun n hn => ?_⟩
    · rw [run_writeAll_cons, hwrite]
      exact hrest
    · rcases List.mem_cons.mp he with rfl | he
      · rw [hout e.1 hd, hfiles₁, if_pos rfl]
      · exact hin e he
    · rw [List.map_cons, List.mem_cons, not_or] at hn
      rw [hout n hn.2, hfiles₁, if_neg hn.1]

/-- What stops the writing is a fault of the storage, met at one of the documents. -/
theorem exists_write_of_run_writeAll_error {documents : List (Text × Bytes)} {s s' : σ} {f : Fault}
    (h : (storage.writeAll documents).run.run s = (.error f, s')) :
    ∃ d ∈ documents, ∃ t, (storage.write d.1 d.2).run.run t = (.error f, s') := by
  induction documents generalizing s with
  | nil => cases h
  | cons d documents ih =>
    rw [run_writeAll_cons] at h
    split at h
    · next t _ =>
      obtain ⟨e, he, u, hu⟩ := ih h
      exact ⟨e, List.mem_cons_of_mem _ he, u, hu⟩
    · next g t hwrite =>
      cases h
      exact ⟨d, List.mem_cons_self, s, hwrite⟩

/-- Documents kept in memory. -/
def memory : Storage (Keyed Text Bytes) where
  read name := do
    match (← get).get? name with
    | some content => return content
    | none => throw (.file .notFound)
  write name content := modify (Keyed.set name content)

theorem accepts_memory : memory.Accepts fun s n => Keyed.get? n s := fun name content s =>
  ⟨Keyed.set name content s, rfl, fun n => Keyed.get?_set n name content s⟩

end Storage

namespace Atlas
variable {σ : Type} {storage : Storage σ} (a : Atlas) (names : DocumentNames) (location time : Text)

theorem exists_documents : ∃ northbound southbound combined summary, a.documents names time =
    [(names.northbound, northbound), (names.southbound, southbound), (names.combined, combined),
      (names.summary, summary)] := ⟨_, _, _, _, rfl⟩

theorem run_publish (s : σ) : (a.publish storage location names time).run.run s =
    match (storage.writeAll (a.documents names time)).run.run s with
    | (.ok (), s') => (.ok location, s')
    | (.error f, s') => (.error f, s') := by
  show (ExceptT.run (storage.writeAll (a.documents names time) >>= fun _ => pure location)).run s = _
  rw [ExceptT.run_bind, StateT.run_bind]
  generalize StateT.run (ExceptT.run (storage.writeAll (a.documents names time))) s = r
  obtain ⟨f | u, s'⟩ := r
  · rfl
  · rfl

end Atlas

/-! ### What the documents say -/

/-- The files of records and the summary say the same. -/
structure Agree (northbound southbound combined : Bytes) (told : Summary) : Prop where
  endpoints : told.endpointRecords = (Sheet.readEndpoints northbound).length
  backends : told.backendRecords = (Sheet.readBackends southbound).length
  links : told.combinedRecords = ((Csv.rows combined).drop 1).length
  linked_or_not : told.combinedRecords + told.unmatched.length = told.endpointRecords
  unmatched : told.unmatched = ((Sheet.readEndpoints northbound).map (·.callee)).filter
    (· ∉ (Sheet.readBackends southbound).map (·.key))
  /-- Of equal keys the first one counts. -/
  orphaned : told.orphaned = (((Sheet.readBackends southbound).map (·.key)).filter
    (· ∉ (Sheet.readEndpoints northbound).map (·.callee))).eraseDups

theorem orphaned_join_eq (es : List Endpoint) (bs : List BackendCall) :
    (join es bs).orphaned = ((bs.map (·.key)).filter (· ∉ es.map (·.callee))).eraseDups := by
  have hkeys : (index bs).keys = (bs.map (·.key)).eraseDups := by
    rw [← map_fst_keyed]
    exact Keyed.keys_ofList _
  rw [Keyed.eraseDups_filter, ← hkeys]
  refine List.filter_congr fun k _ => ?_
  rw [List.contains_eq_mem, decide_not]

namespace Sheet

theorem length_endpointRow (e : Endpoint) : (endpointRow e).length = endpointTitles.length := rfl

theorem length_backendRow (b : BackendCall) : (backendRow b).length = backendTitles.length := rfl

theorem length_linkRow (l : Link) : (linkRow l).length = linkTitles.length := rfl

theorem plainTitles_link : Csv.PlainTitles linkTitles :=
  ⟨'n', "orthboundVersion", linkTitles.tail, by decide, by decide, by decide⟩

theorem length_rows_writeLinks (ls : List Link) :
    ((Csv.rows (encode (writeLinks ls))).drop 1).length = ls.length := by
  have hne : ∀ row ∈ ls.map linkRow, row ≠ [] := by
    intro row hrow
    obtain ⟨l, -, rfl⟩ := List.mem_map.mp hrow
    exact List.cons_ne_nil _ _
  rw [writeLinks, Csv.rows_write plainTitles_link hne, List.map_cons, List.drop_one, List.tail_cons,
    List.length_map, List.length_map]

theorem map_callee_readEndpoints (es : List Endpoint) :
    (readEndpoints (encode (writeEndpoints es))).map (·.callee) = es.map (·.callee) := by
  rw [readEndpoints_writeEndpoints, List.map_map]
  rfl

theorem map_key_readBackends (bs : List BackendCall) :
    (readBackends (encode (writeBackends bs))).map (·.key) = bs.map (·.key) := by
  rw [readBackends_writeBackends, List.map_map]
  rfl

end Sheet

theorem agree_atlas (s : Survey) (time : Text) : Agree (encode (Sheet.writeEndpoints s.endpoints))
    (encode (Sheet.writeBackends s.backends)) (encode (Sheet.writeLinks s.atlas.joined.links))
    (s.atlas.told time) where
  endpoints := by
    rw [Sheet.readEndpoints_writeEndpoints, List.length_map]
    rfl
  backends := by
    rw [Sheet.readBackends_writeBackends, List.length_map]
    rfl
  links := (Sheet.length_rows_writeLinks _).symm
  linked_or_not := length_links_add_length_unmatched
  unmatched := by
    rw [Sheet.map_callee_readEndpoints, Sheet.map_key_readBackends]
    exact unmatched_join
  orphaned := by
    rw [Sheet.map_callee_readEndpoints, Sheet.map_key_readBackends]
    exact orphaned_join_eq _ _

/-- The documents that are published for a survey agree with each other. On a storage that accepts every
    document four files are written under four names, and no other is touched: the summary can be read, and
    it says what the records in the other files say. On any storage each row is as wide as its titles, so
    that only the storage can stop the writing. -/
theorem published_documents_agree (survey : Survey) (names : DocumentNames) (location time : Text) :
    ((∀ e, (Sheet.endpointRow e).length = Sheet.endpointTitles.length) ∧
      (∀ b, (Sheet.backendRow b).length = Sheet.backendTitles.length) ∧
      ∀ l, (Sheet.linkRow l).length = Sheet.linkTitles.length) ∧
    (∀ {σ : Type} (storage : Storage σ) (s s' : σ) (f : Fault),
      (survey.atlas.publish storage location names time).run.run s = (.error f, s') →
      ∃ d ∈ survey.atlas.documents names time, ∃ t, (storage.write d.1 d.2).run.run t = (.error f, s')) ∧
    ∀ {σ : Type} (storage : Storage σ) (files : σ → Text → Option Bytes), storage.Accepts files →
      names.toList.Nodup → ∀ s, ∃ s' northbound southbound combined summary told,
        (survey.atlas.publish storage location names time).run.run s = (.ok location, s') ∧
        (files s' names.northbound = some northbound ∧ files s' names.southbound = some southbound ∧
          files s' names.combined = some combined ∧ files s' names.summary = some summary) ∧
        (∀ n, n ∉ names.toList → files s' n = files s n) ∧
        Summary.ofBytes? summary = some told ∧ Agree northbound southbound combined told := by
  refine ⟨⟨Sheet.length_endpointRow, Sheet.length_backendRow, Sheet.length_linkRow⟩, ?_, ?_⟩
  · intro σ storage s s' f h
    rw [Atlas.run_publish] at h
    split at h
    · cases h
    · next hwrite =>
      cases h
      exact Storage.exists_write_of_run_writeAll_error hwrite
  · intro σ storage files haccepts hnames s
    have hnodup : ((survey.atlas.documents names time).map (·.1)).Nodup := hnames
    obtain ⟨s', hwrite, hin, hout⟩ := Storage.run_writeAll_of_accepts haccepts hnodup s
    refine ⟨s', encode (Sheet.writeEndpoints survey.endpoints), encode (Sheet.writeBackends survey.backends),
      encode (Sheet.writeLinks survey.atlas.joined.links), encode (survey.atlas.summary time).pretty,
      survey.atlas.told time, ?_, ⟨?_, ?_, ?_, ?_⟩, hout, ofBytes?_summary survey.atlas time, agree_atlas survey time⟩
    · rw [Atlas.run_publish, hwrite]
    · exact hin _ (.head _)
    · exact hin _ (.tail _ (.head _))
    · exact hin _ (.tail _ (.tail _ (.head _)))
    · exact hin _ (.tail _ (.tail _ (.tail _ (.head _))))

/-- Three endpoints, two of them without a backend call, and four backend calls under two keys, one of which
    no endpoint names: a run that keeps its documents in memory. -/
theorem published_documents_agree_in_memory :
    let linked : Endpoint := ⟨"v1", "List", ["a;b"], some .get, "/list", "\x7b \"x\":\n 1 \x7d", ⟨"V1", "list"⟩⟩
    let alone : Endpoint := ⟨"v1", "Add", [], some .post, "/add", [], ⟨[], "add,\r\n"⟩⟩
    let call (method : Text) : BackendCall := ⟨⟨"V1", method⟩, [""], "shop", "get", "v2", "/list", [], none⟩
    let survey : Survey := ⟨[linked, alone, alone], [call "list", call "\"\n", call "list", call "\"\n"], 1, 1, 0⟩
    let names : DocumentNames := {}
    Storage.memory.Accepts (fun s n => Keyed.get? n s) ∧ names.toList.Nodup ∧
      ∃ s' northbound southbound combined summary told,
        (survey.atlas.publish Storage.memory "out" names "TIME").run.run [] = (.ok "out", s') ∧
        (Keyed.get? names.northbound s' = some northbound ∧ Keyed.get? names.southbound s' = some southbound ∧
          Keyed.get? names.combined s' = some combined ∧ Keyed.get? names.summary s' = some summary) ∧
        Summary.ofBytes? summary = some told ∧ Agree northbound southbound combined told := by
  intro linked alone call survey names
  have hnodup : names.toList.Nodup := by decide
  obtain ⟨s', northbound, southbound, combined, summary, told, hrun, hfiles, -, htold, hagree⟩ :=
    (published_documents_agree survey names "out" "TIME").2.2 Storage.memory _ Storage.accepts_memory hnodup []
  exact ⟨Storage.accepts_memory, hnodup, s', northbound, southbound, combined, summary, told, hrun, hfiles, htold,
    hagree⟩

end EndpointAtlas
