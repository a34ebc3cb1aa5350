import EndpointAtlas.Proofs.Sheet.NormalForm
import Mathlib.Data.List.Basic

/-! The records in normal form: those that a sheet gives back as they were written. A list comes back
    unless an item of it holds a semicolon or it is one empty text, which has the field of the empty list. -/

namespace EndpointAtlas
open Text

namespace Sheet

/-! ### Lists -/

theorem eq_nil_or_of_joinWith_eq_nil {sep : Text} (hsep : sep ≠ []) {items : List Text}
    (h : joinWith sep items = []) : items = [] ∨ items = [[]] := by
  match items with
  | [] => exact Or.inl rfl
  | [p] => exact Or.inr (congrArg (fun q => [q]) h)
  | p :: q :: ps =>
    rw [joinWith_cons (by simp)] at h
    exact absurd (List.append_eq_nil_iff.mp (List.append_eq_nil_iff.mp h).1).2 hsep

theorem splitList_joinList_eq_self_iff {items : List Text} :
    splitList (joinList items) = items ↔ (∀ i ∈ items, ';' ∉ i) ∧ items ≠ [[]] := by
  unfold splitList
  by_cases hempty : joinList items = []
  · rw [hempty, List.isEmpty_nil, if_pos rfl]
    rcases eq_nil_or_of_joinWith_eq_nil (by decide) hempty with rfl | rfl
    · simp
    · simp
  · rw [if_neg (by simpa using hempty)]
    constructor
    · intro h
      refine ⟨fun i hi => ?_, ?_⟩
      · rw [← h] at hi
        exact not_mem_of_mem_splitOn hi
      · rintro rfl
        exact hempty rfl
    · rintro ⟨hplain, -⟩
      have hne : items ≠ [] := by
        rintro rfl
        exact hempty rfl
      exact splitOn_joinWith hne hplain

end Sheet

/-! ### Records -/

theorem Endpoint.normal_normal (e : Endpoint) : e.normal.normal = e.normal := by
  simp only [Endpoint.normal, Sheet.joinList_splitList, Sheet.flatten_flatten]

theorem BackendCall.normal_normal (b : BackendCall) : b.normal.normal = b.normal := by
  simp only [BackendCall.normal, Sheet.joinList_splitList]

theorem Endpoint.normal_eq_self_iff {e : Endpoint} : e.normal = e ↔
    (∀ h ∈ e.headers, ';' ∉ h) ∧ e.headers ≠ [[]] ∧ Sheet.flatten e.payload = e.payload := by
  have hfields : e.normal = e ↔
      Sheet.splitList (Sheet.joinList e.headers) = e.headers ∧ Sheet.flatten e.payload = e.payload := by
    cases e
    simp [Endpoint.normal]
  rw [hfields, Sheet.splitList_joinList_eq_self_iff, and_assoc]

theorem BackendCall.normal_eq_self_iff {b : BackendCall} : b.normal = b ↔
    (∀ q ∈ b.queryParams, ';' ∉ q) ∧ b.queryParams ≠ [[]] := by
  have hfields : b.normal = b ↔ Sheet.splitList (Sheet.joinList b.queryParams) = b.queryParams := by
    cases b
    simp [BackendCall.normal]
  rw [hfields, Sheet.splitList_joinList_eq_self_iff]

theorem map_eq_self_iff {α : Type} {f : α → α} {l : List α} : l.map f = l ↔ ∀ a ∈ l, f a = a := by
  conv_lhs => rw [← l.map_id, List.map_map, List.map_inj_left]
  simp

namespace Sheet

/-! ### Files -/

/-- A file of records that is read gives the records in normal form, one for one and in order: nothing
    more happens to them when they are written and read again, and nothing at all happens to those that
    have a list and a payload that come back. -/
theorem read_written_eq_normal (es : List Endpoint) (bs : List BackendCall) :
    let tripE := fun es => readEndpoints (encode (writeEndpoints es))
    let tripB := fun bs => readBackends (encode (writeBackends bs))
    (tripE es = es.map Endpoint.normal ∧ tripB bs = bs.map BackendCall.normal) ∧
    (tripE (tripE es) = tripE es ∧ tripB (tripB bs) = tripB bs) ∧
    ((∀ e : Endpoint, e.normal.normal = e.normal) ∧ ∀ b : BackendCall, b.normal.normal = b.normal) ∧
    (tripE es = es ↔ ∀ e ∈ es, (∀ h ∈ e.headers, ';' ∉ h) ∧ e.headers ≠ [[]] ∧ flatten e.payload = e.payload) ∧
    (tripB bs = bs ↔ ∀ b ∈ bs, (∀ q ∈ b.queryParams, ';' ∉ q) ∧ b.queryParams ≠ [[]]) := by
  intro tripE tripB
  have hE : ∀ es, tripE es = es.map Endpoint.normal := readEndpoints_writeEndpoints
  have hB : ∀ bs, tripB bs = bs.map BackendCall.normal := readBackends_writeBackends
  refine ⟨⟨hE es, hB bs⟩, ⟨?_, ?_⟩, ⟨Endpoint.normal_normal, BackendCall.normal_normal⟩, ?_, ?_⟩
  · rw [hE (tripE es), hE es, List.map_map]
    exact List.map_congr_left fun e _ => e.normal_normal
  · rw [hB (tripB bs), hB bs, List.map_map]
    exact List.map_congr_left fun b _ => b.normal_normal
  · rw [hE, map_eq_self_iff]
    exact forall₂_congr fun e _ => Endpoint.normal_eq_self_iff
  · rw [hB, map_eq_self_iff]
    exact forall₂_congr fun b _ => BackendCall.normal_eq_self_iff

end Sheet

end EndpointAtlas
