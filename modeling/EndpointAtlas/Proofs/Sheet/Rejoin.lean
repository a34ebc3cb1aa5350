import EndpointAtlas.Program.CombineCsv
import EndpointAtlas.Proofs.FileTree.Rewrite
import EndpointAtlas.Proofs.Sheet.NormalForm

/-! The join made again from the two files of records that were written. Both sides come back in normal
    form, which keeps their keys: the same records find each other, and their links have the same rows.
    So the program that joins files of records writes the combined file that the run has written. -/

namespace EndpointAtlas

/-! ### Changed records under the same keys -/

section Map
variable {f : Endpoint → Endpoint} {g : BackendCall → BackendCall}

theorem index_map (hg : ∀ b, (g b).key = b.key) (bs : List BackendCall) :
    index (bs.map g) = (index bs).map fun p => (p.1, g p.2) := by
  have hpairs : (bs.map g).map (fun b => (b.key, b)) = (bs.map fun b => (b.key, b)).map fun p => (p.1, g p.2) := by
    rw [List.map_map, List.map_map]
    exact List.map_congr_left fun b _ => by simp [hg]
  rw [index, hpairs, Keyed.ofList_map]
  rfl

theorem map_callee (hf : ∀ e, (f e).callee = e.callee) (es : List Endpoint) :
    (es.map f).map Endpoint.callee = es.map Endpoint.callee := by
  rw [List.map_map]
  exact List.map_congr_left fun e _ => hf e

theorem links_join_map (hf : ∀ e, (f e).callee = e.callee) (hg : ∀ b, (g b).key = b.key)
    (es : List Endpoint) (bs : List BackendCall) :
    (join (es.map f) (bs.map g)).links = (join es bs).links.map fun l => ⟨f l.endpoint, g l.backend⟩ := by
  simp only [join, index_map hg, List.filterMap_map, List.map_filterMap]
  refine List.filterMap_congr fun e _ => ?_
  rw [Function.comp_apply, hf, Keyed.get?_map, Option.map_map, Option.map_map]
  rfl

theorem unmatched_join_map (hf : ∀ e, (f e).callee = e.callee) (hg : ∀ b, (g b).key = b.key)
    (es : List Endpoint) (bs : List BackendCall) :
    (join (es.map f) (bs.map g)).unmatched = (join es bs).unmatched := by
  simp only [join, map_callee hf, index_map hg, Keyed.get?_map, Option.isNone_map]

theorem orphaned_join_map (hf : ∀ e, (f e).callee = e.callee) (hg : ∀ b, (g b).key = b.key)
    (es : List Endpoint) (bs : List BackendCall) :
    (join (es.map f) (bs.map g)).orphaned = (join es bs).orphaned := by
  simp only [join, map_callee hf, index_map hg, Keyed.keys_map]

end Map

/-! ### The files of records, read again -/

namespace Sheet

/-- The join of the files that are written for the records. -/
def rejoin (es : List Endpoint) (bs : List BackendCall) : Joined :=
  join (readEndpoints (Text.encode (writeEndpoints es))) (readBackends (Text.encode (writeBackends bs)))

theorem rejoin_eq (es : List Endpoint) (bs : List BackendCall) :
    rejoin es bs = join (es.map Endpoint.normal) (bs.map BackendCall.normal) := by
  rw [rejoin, readEndpoints_writeEndpoints, readBackends_writeBackends]

theorem linkRow_normal (l : Link) : linkRow ⟨l.endpoint.normal, l.backend.normal⟩ = linkRow l := by
  rw [linkRow, endpointRow_normal, backendRow_normal, linkRow]

theorem links_rejoin (es : List Endpoint) (bs : List BackendCall) :
    (rejoin es bs).links = (join es bs).links.map fun l => ⟨l.endpoint.normal, l.backend.normal⟩ := by
  rw [rejoin_eq]
  exact links_join_map callee_normal key_normal es bs

theorem unmatched_rejoin (es : List Endpoint) (bs : List BackendCall) :
    (rejoin es bs).unmatched = (join es bs).unmatched := by
  rw [rejoin_eq]
  exact unmatched_join_map callee_normal key_normal es bs

theorem orphaned_rejoin (es : List Endpoint) (bs : List BackendCall) :
    (rejoin es bs).orphaned = (join es bs).orphaned := by
  rw [rejoin_eq]
  exact orphaned_join_map callee_normal key_normal es bs

theorem writeLinks_rejoin (es : List Endpoint) (bs : List BackendCall) :
    writeLinks (rejoin es bs).links = writeLinks (join es bs).links := by
  rw [links_rejoin, writeLinks, writeLinks, List.map_map]
  congr 2
  exact List.map_congr_left fun l _ => linkRow_normal l

end Sheet

/-! ### The program that joins files -/

/-- The files of records that a command line tells are those that are written for the records. -/
structure CombineFiles.Hold (files : CombineFiles) (t : FileTree) (es : List Endpoint) (bs : List BackendCall) :
    Prop where
  northbound : t.read (joinPath files.dir files.northbound) = .ok (Text.encode (Sheet.writeEndpoints es))
  southbound : t.read (joinPath files.dir files.southbound) = .ok (Text.encode (Sheet.writeBackends bs))

section Program

theorem run_bind_of_run {σ α β : Type} {x : StateM σ α} {f : α → StateM σ β} {s u : σ} {a : α}
    (h : x.run s = (a, u)) : (x >>= f).run s = (f a).run u := by
  rw [StateT.run_bind, h]
  rfl

variable {env : Surroundings} {words : List Text} {given : Given} {t : FileTree} {es : List Endpoint}
  {bs : List BackendCall}

theorem recombine_written (es : List Endpoint) (bs : List BackendCall) :
    recombine (Text.encode (Sheet.writeEndpoints es)) (Text.encode (Sheet.writeBackends bs)) =
      (Sheet.writeLinks (join es bs).links, (join es bs).links.length) := by
  show (Sheet.writeLinks (Sheet.rejoin es bs).links, (Sheet.rejoin es bs).links.length) = _
  rw [Sheet.writeLinks_rejoin, Sheet.links_rejoin, List.length_map]

theorem run_combineCsv (hgiven : CommandLine.ofWords combineOptions words = .ok given)
    (hold : (CombineFiles.ofGiven given).Hold t es bs) :
    (combineCsv env words).run t =
      (let files := CombineFiles.ofGiven given
       match ((Storage.below files.dir).write files.output
          (Text.encode (Sheet.writeLinks (join es bs).links))).run.run t with
       | (.error f, u) => (.ofFileFault "writing" files.output files.dir f, u)
       | (.ok (), u) => (.success ["✅ Combined " ++ Text.ofNat (join es bs).links.length ++ " records into " ++
          files.output], u)) := by
  have hnorth := Storage.run_read_below hold.northbound
  have hsouth := Storage.run_read_below hold.southbound
  unfold combineCsv
  rw [hgiven]
  simp only [run_bind_of_run hnorth, run_bind_of_run hsouth, recombine_written]
  rw [StateT.run_bind]
  generalize StateT.run (ExceptT.run _) t = r
  obtain ⟨f | a, u⟩ := r
  · rfl
  · rfl

end Program

/-- Joining the files that were written for the records finds the same keys without partner, and it
    writes the same file of links. So does the program on a tree where the records are in the files
    that it reads: what it leaves, when it ends well, is the file of links of the records, and where that
    file is there already it ends well and leaves the tree as it is. -/
theorem rejoin_eq_join_and_rewrites (es : List Endpoint) (bs : List BackendCall) :
    (Sheet.rejoin es bs).unmatched = (join es bs).unmatched ∧
    (Sheet.rejoin es bs).orphaned = (join es bs).orphaned ∧
    Sheet.writeLinks (Sheet.rejoin es bs).links = Sheet.writeLinks (join es bs).links ∧
    ∀ env words given t, CommandLine.ofWords combineOptions words = .ok given →
      (CombineFiles.ofGiven given).Hold t es bs →
      let output := joinPath (CombineFiles.ofGiven given).dir (CombineFiles.ofGiven given).output
      let combined := Text.encode (Sheet.writeLinks (join es bs).links)
      (∀ ending u, (combineCsv env words).run t = (ending, u) → ending.status = 0 → u.read output = .ok combined) ∧
      (t.read output = .ok combined → ∃ told, (combineCsv env words).run t = (.success told, t)) := by
  refine ⟨Sheet.unmatched_rejoin es bs, Sheet.orphaned_rejoin es bs, Sheet.writeLinks_rejoin es bs, ?_⟩
  intro env words given t hgiven hold output combined
  refine ⟨fun ending u hrun hstatus => ?_, fun hread => ?_⟩
  · -- A failure to write has a status of its own.
    rw [run_combineCsv hgiven hold] at hrun
    dsimp only at hrun
    split at hrun
    · next hwrite =>
      cases hrun
      cases hstatus
    · next hwrite =>
      cases hrun
      exact Storage.read_of_run_write_below hwrite
  · rw [run_combineCsv hgiven hold]
    dsimp only
    rw [Storage.run_write_below_of_read hread]
    exact ⟨_, rfl⟩

/-- The usual files of a run whose records do not come back as they were: a header with a semicolon, a
    payload on two lines and a list of one empty text. -/
theorem rewrites_usual_files :
    let e : Endpoint := ⟨"v1", "list, all", ["a;b", ""], some .get, "/list", "\x7b \"x\":\n 1 \x7d", ⟨"v1", "fetch"⟩⟩
    let b : BackendCall := ⟨⟨"v1", "fetch"⟩, [""], "shop", "get", "v2", "/list", [], none⟩
    let t : FileTree := ⟨[(["output"], .directory),
      (["output", "northbound.csv"], .file (Text.encode (Sheet.writeEndpoints [e]))),
      (["output", "southbound.csv"], .file (Text.encode (Sheet.writeBackends [b]))),
      (["output", "combined_records.csv"], .file (Text.encode (Sheet.writeLinks [⟨e, b⟩])))], []⟩
    e.normal ≠ e ∧ b.normal ≠ b ∧ CommandLine.ofWords combineOptions [] = .ok [] ∧
      (CombineFiles.ofGiven []).Hold t [e] [b] ∧
      ∃ told, (combineCsv ⟨fun _ => none, []⟩ []).run t = (.success told, t) := by
  intro e b t
  have hgiven : CommandLine.ofWords combineOptions [] = .ok [] := rfl
  have hold : (CombineFiles.ofGiven []).Hold t [e] [b] := ⟨by decide +kernel, by decide +kernel⟩
  have houtput : t.read (joinPath (CombineFiles.ofGiven []).dir (CombineFiles.ofGiven []).output) =
      .ok (Text.encode (Sheet.writeLinks (join [e] [b]).links)) := by decide +kernel
  exact ⟨by decide +kernel, by decide +kernel, hgiven, hold,
    ((rejoin_eq_join_and_rewrites [e] [b]).2.2.2 _ _ _ _ hgiven hold).2 houtput⟩

end EndpointAtlas
