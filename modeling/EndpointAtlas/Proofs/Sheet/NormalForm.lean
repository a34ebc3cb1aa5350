import EndpointAtlas.Proofs.Csv.RoundTrip
import EndpointAtlas.Proofs.Text.Blank
import EndpointAtlas.Proofs.Text.Pieces
import EndpointAtlas.Sheet

/-! What becomes of a record that is written to a sheet and read again. A list is split at the semicolons
    that its items hold, and a payload that looks like JSON comes back on one line; every other field
    comes back as it was. The record that comes back is the record in normal form, and it has the same
    row as the record that was written. -/

namespace EndpointAtlas

/-- The endpoint as it comes back from a sheet. -/
def Endpoint.normal (e : Endpoint) : Endpoint :=
  { e with headers := Sheet.splitList (Sheet.joinList e.headers), payload := Sheet.flatten e.payload }

/-- The backend call as it comes back from a sheet. -/
def BackendCall.normal (b : BackendCall) : BackendCall :=
  { b with queryParams := Sheet.splitList (Sheet.joinList b.queryParams) }

namespace Sheet
open Text

/-! ### Fields -/

theorem joinList_splitList (field : Text) : joinList (splitList field) = field := by
  unfold splitList
  by_cases h : field.isEmpty = true
  · rw [if_pos h, List.isEmpty_iff.mp h]
    rfl
  · rw [if_neg h]
    exact joinWith_splitOn ';' field

theorem ofText?_methodField (m : Option HttpMethod) : HttpMethod.ofText? (methodField m) = m := by
  cases m with
  | none => rfl
  | some m => exact HttpMethod.ofText?_name m

theorem flatten_of_structured {payload t : Text} {c : Char} (h : trim payload = c :: t)
    (hc : c = '\x7b' ∨ c = '[') : flatten payload = squeezeBlanks (trim payload) := by
  unfold flatten
  rw [h]
  rcases hc with rfl | rfl <;> rfl

theorem flatten_of_plain {payload : Text} (h : ∀ c t, trim payload = c :: t → c ≠ '\x7b' ∧ c ≠ '[') :
    flatten payload = payload := by
  unfold flatten
  split
  · next t ht => exact absurd rfl (h _ t ht).1
  · next t ht => exact absurd rfl (h _ t ht).2
  · rfl

theorem flatten_flatten (payload : Text) : flatten (flatten payload) = flatten payload := by
  by_cases h : ∃ c t, trim payload = c :: t ∧ (c = '\x7b' ∨ c = '[')
  · obtain ⟨c, t, ht, hc⟩ := h
    have hblank : isBlank c = false := by rcases hc with rfl | rfl <;> rfl
    have hflat := flatten_of_structured ht hc
    have htrim : trim (flatten payload) = flatten payload := by
      rw [hflat, trim_squeezeBlanks, trim_trim]
    have hhead : trim (flatten payload) = c :: squeezeBlanks t := by
      rw [htrim, hflat, ht, squeezeBlanks_cons_of_not_isBlank hblank]
    rw [flatten_of_structured hhead hc, htrim, hflat, squeezeBlanks_squeezeBlanks]
  · have hflat : flatten payload = payload := flatten_of_plain fun c t ht => not_or.mp fun hc => h ⟨c, t, ht, hc⟩
    rw [hflat, hflat]

/-! ### Rows -/

theorem endpointOfRow_endpointRow (e : Endpoint) : endpointOfRow (endpointRow e) = e.normal := by
  simp [endpointOfRow, endpointRow, Endpoint.normal, ofText?_methodField]

theorem backendOfRow_backendRow (b : BackendCall) : backendOfRow (backendRow b) = b.normal := by
  simp [backendOfRow, backendRow, BackendCall.normal, ofText?_methodField]

@[simp] theorem callee_normal (e : Endpoint) : e.normal.callee = e.callee := rfl

@[simp] theorem key_normal (b : BackendCall) : b.normal.key = b.key := rfl

theorem endpointRow_normal (e : Endpoint) : endpointRow e.normal = endpointRow e := by
  simp [endpointRow, Endpoint.normal, joinList_splitList, flatten_flatten]

theorem backendRow_normal (b : BackendCall) : backendRow b.normal = backendRow b := by
  simp [backendRow, BackendCall.normal, joinList_splitList]

/-! ### Files -/

theorem plainTitles_endpoint : Csv.PlainTitles endpointTitles :=
  ⟨'n', "orthboundVersion", endpointTitles.tail, by decide, by decide, by decide⟩

theorem plainTitles_backend : Csv.PlainTitles backendTitles :=
  ⟨'s', "outhboundVersion", backendTitles.tail, by decide, by decide, by decide⟩

/-- The rows of a written file, where no row is too narrow to be read. -/
theorem read_write_rows {α : Type} {titles : List Text} (htitles : Csv.PlainTitles titles) {width : Nat}
    (hpos : 0 < width) {row : α → List Text} (hwide : ∀ a, width ≤ (row a).length) (l : List α) :
    Csv.read width (encode (Csv.write (titles :: l.map row))) = l.map row := by
  have hrows : ∀ r ∈ l.map row, width ≤ r.length := by
    intro r hr
    obtain ⟨a, -, rfl⟩ := List.mem_map.mp hr
    exact hwide a
  have hne : ∀ r ∈ l.map row, r ≠ [] := fun r hr =>
    List.ne_nil_of_length_pos (Nat.lt_of_lt_of_le hpos (hrows r hr))
  rw [Csv.read_write htitles width hne]
  exact List.filter_eq_self.mpr fun r hr => decide_eq_true (hrows r hr)

theorem readEndpoints_writeEndpoints (es : List Endpoint) :
    readEndpoints (encode (writeEndpoints es)) = es.map Endpoint.normal := by
  have hread : Csv.read endpointWidth (encode (writeEndpoints es)) = es.map endpointRow :=
    read_write_rows plainTitles_endpoint (by decide) (fun _ => by simp [endpointRow, endpointWidth]) es
  rw [readEndpoints, hread, List.map_map]
  exact List.map_congr_left fun e _ => endpointOfRow_endpointRow e

theorem readBackends_writeBackends (bs : List BackendCall) :
    readBackends (encode (writeBackends bs)) = bs.map BackendCall.normal := by
  have hread : Csv.read backendWidth (encode (writeBackends bs)) = bs.map backendRow :=
    read_write_rows plainTitles_backend (by decide) (fun _ => by simp [backendRow, backendWidth]) bs
  rw [readBackends, hread, List.map_map]
  exact List.map_congr_left fun b _ => backendOfRow_backendRow b

end Sheet

end EndpointAtlas
