import EndpointAtlas.Join
import EndpointAtlas.Proofs.Keyed
import Mathlib.Data.Finset.Card
import Mathlib.Data.List.Sort

/-! The join as a relation between two lists of records and an outcome (`IsJoin`), told without an index:
    which endpoints are linked and to what, which keys are left over on either side, and in which order
    all of this stands. Exactly one outcome is related to two lists, and it is the one that `join` makes. -/

namespace EndpointAtlas

/-- `b` is the last of the backend calls under the key `k`. -/
def IsLastUnder (bs : List BackendCall) (k : CallKey) (b : BackendCall) : Prop :=
  ∃ before after, bs = before ++ b :: after ∧ b.key = k ∧ ∀ c ∈ after, c.key ≠ k

/-- What a join is. -/
structure IsJoin (es : List Endpoint) (bs : List BackendCall) (j : Joined) : Prop where
  endpoints : j.links.map (·.endpoint) = es.filter (·.callee ∈ bs.map (·.key))
  backends : ∀ l ∈ j.links, IsLastUnder bs l.endpoint.callee l.backend
  unmatched : j.unmatched = (es.map (·.callee)).filter (· ∉ bs.map (·.key))
  mem_orphaned : ∀ k, k ∈ j.orphaned ↔ k ∈ bs.map (·.key) ∧ k ∉ es.map (·.callee)
  /-- The orphaned keys are ordered by where each of them first appears, so that none stands twice. -/
  orphaned_order : j.orphaned.Pairwise fun k m => (bs.map (·.key)).idxOf k < (bs.map (·.key)).idxOf m

/-! ### The index -/

theorem isLast_iff_isLastUnder {bs : List BackendCall} {k : CallKey} {b : BackendCall} :
    Keyed.IsLast (bs.map fun b => (b.key, b)) k b ↔ IsLastUnder bs k b := by
  constructor
  · rintro ⟨before, after, split, later⟩
    obtain ⟨bs₁, bs₂, rfl, rfl, h₂⟩ := List.map_eq_append_iff.mp split
    obtain ⟨c, bs₃, rfl, hc, rfl⟩ := List.map_eq_cons_iff.mp h₂
    obtain ⟨rfl, rfl⟩ := Prod.mk.inj hc
    exact ⟨bs₁, bs₃, rfl, rfl, fun d hd => later (d.key, d) (List.mem_map.mpr ⟨d, hd, rfl⟩)⟩
  · rintro ⟨before, after, rfl, rfl, later⟩
    refine ⟨before.map fun b => (b.key, b), after.map fun b => (b.key, b), by simp, fun p hp => ?_⟩
    obtain ⟨d, hd, rfl⟩ := List.mem_map.mp hp
    exact later d hd

theorem get?_index_eq_some_iff {bs : List BackendCall} {k : CallKey} {b : BackendCall} :
    (index bs).get? k = some b ↔ IsLastUnder bs k b :=
  Keyed.get?_ofList_eq_some_iff.trans isLast_iff_isLastUnder

theorem map_fst_keyed (bs : List BackendCall) : (bs.map fun b => (b.key, b)).map (·.1) = bs.map (·.key) := by
  rw [List.map_map]
  rfl

theorem mem_keys_index {bs : List BackendCall} {k : CallKey} :
    k ∈ (index bs).keys ↔ k ∈ bs.map (·.key) := by
  rw [← map_fst_keyed]
  exact Keyed.mem_keys_ofList

theorem isSome_get?_index {bs : List BackendCall} {k : CallKey} :
    ((index bs).get? k).isSome ↔ k ∈ bs.map (·.key) :=
  Keyed.mem_keys_iff_isSome.symm.trans mem_keys_index

theorem IsLastUnder.unique {bs : List BackendCall} {k : CallKey} {b c : BackendCall}
    (hb : IsLastUnder bs k b) (hc : IsLastUnder bs k c) : b = c := by
  rw [← get?_index_eq_some_iff] at hb hc
  exact Option.some.inj (hb.symm.trans hc)

/-! ### The outcome -/

section Outcome
variable {es : List Endpoint} {bs : List BackendCall}

theorem mem_links_join {l : Link} (hl : l ∈ (join es bs).links) :
    IsLastUnder bs l.endpoint.callee l.backend := by
  obtain ⟨e, -, h⟩ := List.mem_filterMap.mp hl
  obtain ⟨b, hb, rfl⟩ := Option.map_eq_some_iff.mp h
  exact get?_index_eq_some_iff.mp hb

theorem map_endpoint_links_join :
    (join es bs).links.map (·.endpoint) = es.filter (·.callee ∈ bs.map (·.key)) := by
  induction es with
  | nil => rfl
  | cons e es ih =>
    have hlinks : (join (e :: es) bs).links =
        (((index bs).get? e.callee).map (Link.mk e)).toList ++ (join es bs).links := by
      cases h : ((index bs).get? e.callee).map (Link.mk e) <;> simp [join, h]
    rw [hlinks, List.map_append, ih]
    by_cases he : e.callee ∈ bs.map (·.key)
    · obtain ⟨b, hb⟩ := Option.isSome_iff_exists.mp (isSome_get?_index.mpr he)
      rw [List.filter_cons_of_pos (by simpa using he), hb]
      rfl
    · have hb : (index bs).get? e.callee = none := by
        rw [← Option.not_isSome_iff_eq_none, isSome_get?_index]
        exact he
      rw [List.filter_cons_of_neg (by simpa using he), hb]
      rfl

theorem unmatched_join : (join es bs).unmatched = (es.map (·.callee)).filter (· ∉ bs.map (·.key)) := by
  refine List.filter_congr fun k _ => ?_
  rw [Bool.eq_iff_iff, decide_eq_true_iff, ← isSome_get?_index, Option.isNone_iff_eq_none,
    Option.not_isSome_iff_eq_none]

theorem mem_orphaned_join {k : CallKey} :
    k ∈ (join es bs).orphaned ↔ k ∈ bs.map (·.key) ∧ k ∉ es.map (·.callee) := by
  simp only [join, List.mem_filter, mem_keys_index, Bool.not_eq_true', List.contains_eq_mem, decide_eq_false_iff_not]

theorem orphaned_join_pairwise : (join es bs).orphaned.Pairwise fun k m =>
    (bs.map (·.key)).idxOf k < (bs.map (·.key)).idxOf m := by
  have h := Keyed.keys_ofList_pairwise (bs.map fun b => (b.key, b))
  rw [map_fst_keyed] at h
  exact h.filter _

theorem isJoin_join : IsJoin es bs (join es bs) where
  endpoints := map_endpoint_links_join
  backends _ hl := mem_links_join hl
  unmatched := unmatched_join
  mem_orphaned _ := mem_orphaned_join
  orphaned_order := orphaned_join_pairwise

namespace IsJoin
variable {j j' : Joined}

/-- The endpoint of a link decides its backend call. -/
theorem links_unique (h : IsJoin es bs j) (h' : IsJoin es bs j') : j.links = j'.links := by
  have hends : j.links.map (·.endpoint) = j'.links.map (·.endpoint) := h.endpoints.trans h'.endpoints.symm
  refine List.ext_getElem (by simpa using congrArg List.length hends) fun i hi hi' => ?_
  have he : j.links[i].endpoint = j'.links[i].endpoint := by
    simpa [hi, hi'] using congrArg (·[i]?) hends
  have hb := h.backends _ (List.getElem_mem hi)
  have hb' := h'.backends _ (List.getElem_mem hi')
  rw [← he] at hb'
  have hback := hb.unique hb'
  cases hl : j.links[i]
  cases hl' : j'.links[i]
  simp only [hl, hl'] at he hback
  rw [he, hback]

theorem orphaned_nodup (h : IsJoin es bs j) : j.orphaned.Nodup := by
  unfold List.Nodup
  refine h.orphaned_order.imp fun {k m} hlt heq => ?_
  rw [heq] at hlt
  exact Nat.lt_irrefl _ hlt

theorem orphaned_unique (h : IsJoin es bs j) (h' : IsJoin es bs j') : j.orphaned = j'.orphaned := by
  have hperm : j.orphaned.Perm j'.orphaned :=
    (List.perm_ext_iff_of_nodup h.orphaned_nodup h'.orphaned_nodup).mpr fun k =>
      (h.mem_orphaned k).trans (h'.mem_orphaned k).symm
  exact hperm.eq_of_pairwise (fun _ _ _ _ hlt hgt => absurd hlt (Nat.lt_asymm hgt)) h.orphaned_order
    h'.orphaned_order

theorem unique (h : IsJoin es bs j) (h' : IsJoin es bs j') : j = j' := by
  have hl := h.links_unique h'
  have hu := h.unmatched.trans h'.unmatched.symm
  have ho := h.orphaned_unique h'
  cases j
  cases j'
  simp only at hl hu ho
  rw [hl, hu, ho]

end IsJoin

theorem isJoin_iff_eq_join {j : Joined} : IsJoin es bs j ↔ j = join es bs :=
  ⟨fun h => h.unique isJoin_join, fun h => h ▸ isJoin_join⟩

/-! ### Counts -/

theorem length_links_add_length_unmatched :
    (join es bs).links.length + (join es bs).unmatched.length = es.length := by
  have hlinks := congrArg List.length (map_endpoint_links_join : (join es bs).links.map (·.endpoint) = _)
  rw [List.length_map] at hlinks
  rw [hlinks, unmatched_join, List.filter_map, List.length_map, ← List.countP_eq_length_filter,
    ← List.countP_eq_length_filter, List.length_eq_countP_add_countP (fun e => decide (e.callee ∈ bs.map (·.key)))]
  congr 1
  exact List.countP_congr fun e _ => by simp

theorem mem_callees_links {k : CallKey} :
    k ∈ (join es bs).links.map (·.endpoint.callee) ↔ k ∈ bs.map (·.key) ∧ k ∈ es.map (·.callee) := by
  have hmap : (join es bs).links.map (·.endpoint.callee) =
      (es.filter (·.callee ∈ bs.map (·.key))).map (·.callee) := by
    rw [← map_endpoint_links_join, List.map_map]
    rfl
  rw [hmap]
  constructor
  · intro hk
    obtain ⟨e, he, rfl⟩ := List.mem_map.mp hk
    obtain ⟨he, hkey⟩ := List.mem_filter.mp he
    exact ⟨of_decide_eq_true hkey, List.mem_map.mpr ⟨e, he, rfl⟩⟩
  · rintro ⟨hkey, hk⟩
    obtain ⟨e, he, rfl⟩ := List.mem_map.mp hk
    exact List.mem_map.mpr ⟨e, List.mem_filter.mpr ⟨he, decide_eq_true hkey⟩, rfl⟩

/-- A key of a backend call is linked or orphaned, and never both. -/
theorem card_callees_links_add_length_orphaned :
    ((join es bs).links.map (·.endpoint.callee)).toFinset.card + (join es bs).orphaned.length =
      (bs.map (·.key)).toFinset.card := by
  have hlinked : ((join es bs).links.map (·.endpoint.callee)).toFinset =
      (bs.map (·.key)).toFinset.filter (· ∈ es.map (·.callee)) := by
    ext k
    rw [List.mem_toFinset, mem_callees_links, Finset.mem_filter, List.mem_toFinset]
  have horphaned : (join es bs).orphaned.toFinset =
      (bs.map (·.key)).toFinset.filter (· ∉ es.map (·.callee)) := by
    ext k
    rw [List.mem_toFinset, mem_orphaned_join, Finset.mem_filter, List.mem_toFinset]
  rw [← List.toFinset_card_of_nodup isJoin_join.orphaned_nodup, hlinked, horphaned]
  exact Finset.card_filter_add_card_filter_not _

/-! ### More endpoints -/

theorem links_join_append {es' : List Endpoint} :
    (join (es ++ es') bs).links = (join es bs).links ++ (join es' bs).links := by
  simp only [join, List.filterMap_append]

theorem unmatched_join_append {es' : List Endpoint} :
    (join (es ++ es') bs).unmatched = (join es bs).unmatched ++ (join es' bs).unmatched := by
  simp only [join, List.map_append, List.filter_append]

end Outcome

/-- The join makes the one outcome that is a join of its records. It passes over no endpoint and no key of
    a backend call, and it goes through the endpoints one by one. -/
theorem isJoin_iff_and_counts (es es' : List Endpoint) (bs : List BackendCall) :
    (∀ j, IsJoin es bs j ↔ j = join es bs) ∧
    (join es bs).links.length + (join es bs).unmatched.length = es.length ∧
    ((join es bs).links.map (·.endpoint.callee)).toFinset.card + (join es bs).orphaned.length =
      (bs.map (·.key)).toFinset.card ∧
    (join (es ++ es') bs).links = (join es bs).links ++ (join es' bs).links ∧
    (join (es ++ es') bs).unmatched = (join es bs).unmatched ++ (join es' bs).unmatched :=
  ⟨fun _ => isJoin_iff_eq_join, length_links_add_length_unmatched, card_callees_links_add_length_orphaned,
    links_join_append, unmatched_join_append⟩

end EndpointAtlas
