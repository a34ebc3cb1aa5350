import EndpointAtlas.Mapping
import EndpointAtlas.Proofs.Join.Relation
import Mathlib.Data.List.Perm.Basic

/-! The same records in another order, as another walk over the source trees finds them. What is linked, what is
    unmatched and what is orphaned are the same up to order; only which of several backend calls under one
    key is linked depends on the order, and where no key stands twice nothing does. -/

namespace EndpointAtlas

section Join
variable {es es' : List Endpoint} {bs bs' : List BackendCall}

/-! ### Look-up -/

theorem isLastUnder_iff_of_nodup (hnodup : (bs.map (·.key)).Nodup) {k : CallKey} {b : BackendCall} :
    IsLastUnder bs k b ↔ b ∈ bs ∧ b.key = k := by
  constructor
  · rintro ⟨before, after, rfl, hk, -⟩
    exact ⟨by simp, hk⟩
  · rintro ⟨hb, rfl⟩
    obtain ⟨before, after, rfl⟩ := List.append_of_mem hb
    refine ⟨before, after, rfl, rfl, fun c hc heq => ?_⟩
    rw [List.map_append, List.map_cons] at hnodup
    have hnot := (List.nodup_cons.mp (List.nodup_append.mp hnodup).2.1).1
    exact hnot (heq ▸ List.mem_map_of_mem hc)

theorem get?_index_perm (hb : bs.Perm bs') (hnodup : (bs.map (·.key)).Nodup) (k : CallKey) :
    (index bs).get? k = (index bs').get? k := by
  have hnodup' : (bs'.map (·.key)).Nodup := (hb.map _).nodup_iff.mp hnodup
  refine Option.ext fun b => ?_
  rw [get?_index_eq_some_iff, get?_index_eq_some_iff, isLastUnder_iff_of_nodup hnodup,
    isLastUnder_iff_of_nodup hnodup', hb.mem_iff]

theorem mem_keys_perm (hb : bs.Perm bs') (k : CallKey) : k ∈ bs.map (·.key) ↔ k ∈ bs'.map (·.key) :=
  (hb.map _).mem_iff

/-! ### Outcomes -/

theorem unmatched_join_perm (he : es.Perm es') (hb : bs.Perm bs') :
    (join es bs).unmatched.Perm (join es' bs').unmatched := by
  rw [unmatched_join, unmatched_join]
  refine ((he.map _).filter _).trans (List.Perm.of_eq (List.filter_congr fun k _ => ?_))
  rw [decide_eq_decide, mem_keys_perm hb]

theorem orphaned_join_perm (he : es.Perm es') (hb : bs.Perm bs') :
    (join es bs).orphaned.Perm (join es' bs').orphaned := by
  refine (List.perm_ext_iff_of_nodup isJoin_join.orphaned_nodup isJoin_join.orphaned_nodup).mpr fun k => ?_
  rw [mem_orphaned_join, mem_orphaned_join, mem_keys_perm hb, (he.map _).mem_iff]

theorem endpoints_links_join_perm (he : es.Perm es') (hb : bs.Perm bs') :
    ((join es bs).links.map (·.endpoint)).Perm ((join es' bs').links.map (·.endpoint)) := by
  rw [map_endpoint_links_join, map_endpoint_links_join]
  refine (he.filter _).trans (List.Perm.of_eq (List.filter_congr fun e _ => ?_))
  rw [decide_eq_decide, mem_keys_perm hb]

theorem links_join_perm (he : es.Perm es') (hb : bs.Perm bs') (hnodup : (bs.map (·.key)).Nodup) :
    (join es bs).links.Perm (join es' bs').links := by
  have hlinks : (join es' bs').links = es'.filterMap fun e => ((index bs).get? e.callee).map (Link.mk e) :=
    List.filterMap_congr fun e _ => by rw [get?_index_perm hb hnodup]
  rw [hlinks]
  exact he.filterMap _

/-- In either order the backend call of a link is one of the records under the key that its endpoint names. -/
theorem backend_mem_of_perm (hb : bs.Perm bs') {l : Link} (hl : l ∈ (join es' bs').links) :
    l.backend ∈ bs ∧ l.backend.key = l.endpoint.callee := by
  obtain ⟨before, after, hsplit, hkey, -⟩ := mem_links_join hl
  exact ⟨hb.mem_iff.mpr (hsplit ▸ by simp), hkey⟩

end Join

/-! ### Source trees -/

section Trees
variable {limit : Nat} {north north' south south' : SourceTree}

theorem endpoints_ofTrees_perm (hn : north.files.Perm north'.files) :
    (Survey.ofTrees limit north south).endpoints.Perm (Survey.ofTrees limit north' south').endpoints :=
  hn.flatMap_right _

theorem backends_ofTrees_perm (hs : south.files.Perm south'.files) :
    (Survey.ofTrees limit north south).backends.Perm (Survey.ofTrees limit north' south').backends :=
  hs.flatMap_right _

/-- The order of the source files changes no more than the order of what a run finds, and which of the
    backend calls under the key of an endpoint is linked to it; where no two backend calls have one key, it
    does not change that either. -/
theorem atlas_perm_of_files_perm (limit : Nat) {north north' south south' : SourceTree}
    (hn : north.files.Perm north'.files) (hs : south.files.Perm south'.files) :
    let a := (Survey.ofTrees limit north south).atlas
    let a' := (Survey.ofTrees limit north' south').atlas
    a.endpoints.Perm a'.endpoints ∧ a.backends.Perm a'.backends ∧
    a.joined.unmatched.Perm a'.joined.unmatched ∧ a.joined.orphaned.Perm a'.joined.orphaned ∧
    (a.joined.links.map (·.endpoint)).Perm (a'.joined.links.map (·.endpoint)) ∧
    (∀ l ∈ a'.joined.links, l.backend ∈ a.backends ∧ l.backend.key = l.endpoint.callee) ∧
    ((a.backends.map (·.key)).Nodup → a.joined.links.Perm a'.joined.links) := by
  intro a a'
  have he : a.endpoints.Perm a'.endpoints := endpoints_ofTrees_perm hn
  have hb : a.backends.Perm a'.backends := backends_ofTrees_perm hs
  exact ⟨he, hb, unmatched_join_perm he hb, orphaned_join_perm he hb, endpoints_links_join_perm he hb,
    fun _ hl => backend_mem_of_perm hb hl, links_join_perm he hb⟩

end Trees

/-- Two files on either side, read in both orders: the links come in another order, and they are the same. -/
theorem atlas_perm_of_turned_files :
    let north : List SourceFile :=
      [⟨"v1/list.rb", "v1", "list", "desc 'List'\nget :all do\n  create_client(Shop::V1::Api)\n  client.list\nend"⟩,
       ⟨"v1/add.rb", "v1", "add", "desc 'Add'\npost :one do\n  create_client(Shop::V1::Api)\n  client.add\nend"⟩]
    let south : List SourceFile :=
      [⟨"v1/read.rb", "V1", "read", "def list\nend\n"⟩, ⟨"v1/write.rb", "V1", "write", "def add\nend\n"⟩]
    let a := (Survey.ofTrees 4 ⟨north, 0⟩ ⟨south, 0⟩).atlas
    let a' := (Survey.ofTrees 4 ⟨north.reverse, 0⟩ ⟨south.reverse, 0⟩).atlas
    a.joined.links.length = 2 ∧ a'.joined.links ≠ a.joined.links ∧ (a.backends.map (·.key)).Nodup ∧
      a.joined.links.Perm a'.joined.links := by
  intro north south a a'
  have hnodup : (a.backends.map (·.key)).Nodup := by decide +kernel
  have hperm := @atlas_perm_of_files_perm 4 ⟨north, 0⟩ ⟨north.reverse, 0⟩ ⟨south, 0⟩ ⟨south.reverse, 0⟩
    (List.reverse_perm north).symm (List.reverse_perm south).symm
  exact ⟨by decide +kernel, by decide +kernel, hnodup, hperm.2.2.2.2.2.2 hnodup⟩

end EndpointAtlas
