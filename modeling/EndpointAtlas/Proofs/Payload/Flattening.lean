import EndpointAtlas.Proofs.Json.Spacing
import EndpointAtlas.Proofs.Payload.Renderings
import EndpointAtlas.Proofs.Sheet.NormalForm

/-! Payloads in a sheet. A body is written on one line and means the same object there, since neither a name nor a
    sample holds a blank that could be lost; a query string is written as it is. -/

namespace EndpointAtlas.Payload
open Text

variable {ps : List Parameter} {text t : Text}

/-! ### Blanks in a body -/

theorem escape_of_isWordChar {c : Char} (hc : isWordChar c = true) : Json.escape c = [c] := by
  have hshort : ∀ x ∈ Json.shortEscapes, isWordChar x.2 = false := by decide +kernel
  have hcontrol : ∀ n < 0x20, isWordChar (Char.ofNat n) = false := by decide +kernel
  rcases Json.escape_cases c with ⟨d, -, -, hlook⟩ | ⟨hcode, -⟩ | ⟨-, -, -, h⟩
  · obtain ⟨l, l', hl, -⟩ := List.lookup_eq_some_iff.mp hlook
    have hchar := hshort (d, c) (by simp [hl])
    rw [hc] at hchar
    cases hchar
  · have hchar := hcontrol c.toNat hcode
    rw [Char.ofNat_toNat, hc] at hchar
    cases hchar
  · exact h

theorem quote_of_isWord {w : Text} (h : IsWord w) : Json.quote w = '"' :: (w ++ ['"']) := by
  have hescape : ∀ s : Text, (∀ c ∈ s, isWordChar c = true) → s.flatMap Json.escape = s := fun s hs => by
    induction s with
    | nil => rfl
    | cons c s ih =>
      obtain ⟨hc, hs⟩ := List.forall_mem_cons.mp hs
      rw [List.flatMap_cons, escape_of_isWordChar hc, ih hs, List.singleton_append]
  rw [Json.quote, hescape w h.2, List.cons_append]

theorem not_isBlank_sample (s : Sample) : ∀ c ∈ Json.render 1 s.json, isBlank c = false := by
  have hany : List.any (Json.render 1 s.json) isBlank = false := by cases s <;> rfl
  exact fun c hc => Bool.eq_false_iff.mpr (List.any_eq_false.mp hany c hc)

theorem isDense_field {name : Text} (h : IsWord name) (s : Sample) : Json.IsDense (name, s.json) where
  name := by
    rw [quote_of_isWord h]
    refine List.forall_mem_cons.mpr ⟨rfl, fun c hc => ?_⟩
    rcases List.mem_append.mp hc with hc | hc
    · exact h.isBlank_eq_false c hc
    · rw [List.mem_singleton.mp hc]
      rfl
  value := not_isBlank_sample s
  valid := isValid_json s

theorem isDense_of_mem_fields (h : ∀ p ∈ ps, IsWord p.name) :
    ∀ f ∈ (fields ps).map fun x => (x.1, x.2.json), Json.IsDense f := by
  intro f hf
  obtain ⟨⟨name, s⟩, hx, rfl⟩ := List.mem_map.mp hf
  have hkey : name ∈ (ps.map fun p => (p.name, p.sample)).map (·.1) :=
    Keyed.mem_keys_ofList.mp (List.mem_map.mpr ⟨(name, s), hx, rfl⟩)
  rw [List.map_map, List.mem_map] at hkey
  obtain ⟨p, hp, rfl⟩ := hkey
  exact isDense_field (h p hp) s

theorem exists_spaced_eq_cons (gap last : Text) (l : List (Text × Json)) :
    ∃ t, Json.spaced gap last l = '\x7b' :: t := by
  cases l <;> exact ⟨_, rfl⟩

theorem endsUnblank_spaced (gap last : Text) (l : List (Text × Json)) : EndsUnblank (Json.spaced gap last l) := by
  have hclosing : EndsUnblank ['\x7d'] := ⟨[], '\x7d', rfl, rfl⟩
  cases l with
  | nil => exact hclosing.append ['\x7b']
  | cons f l => exact ((((hclosing.append last).append _).append (Json.fieldText f)).append gap).append ['\x7b']

theorem flatten_spaced (gap last : Text) (l : List (Text × Json)) :
    Sheet.flatten (Json.spaced gap last l) = squeezeBlanks (Json.spaced gap last l) := by
  obtain ⟨t, ht⟩ := exists_spaced_eq_cons gap last l
  have htrim : trim (Json.spaced gap last l) = Json.spaced gap last l :=
    trim_of_endsUnblank (by rw [ht]; rintro _ ⟨⟩; rfl) (endsUnblank_spaced gap last l)
  rw [Sheet.flatten_of_structured (htrim.trans ht) (Or.inl rfl), htrim]

/-! ### Query strings -/

theorem not_mem_query (h : ∀ p ∈ ps, IsWord p.name) {c : Char} (hword : isWordChar c = false)
    (hsign : c ∉ (['&', '='] : Text)) (hliteral : ∀ s : Sample, c ∉ s.literal) : c ∉ query ps := by
  intro hc
  rcases mem_joinWith hc with hc | ⟨piece, hpiece, hc⟩
  · exact hsign (List.mem_cons.mpr (Or.inl (List.mem_singleton.mp hc)))
  · obtain ⟨p, hp, rfl⟩ := List.mem_map.mp hpiece
    rcases List.mem_append.mp hc with hc | hc
    · rcases List.mem_append.mp hc with hc | hc
      · exact (h p hp).not_mem hword hc
      · exact hsign (List.mem_cons_of_mem _ hc)
    · exact hliteral p.sample hc

/-- No query string looks like JSON. -/
theorem flatten_query (h : ∀ p ∈ ps, IsWord p.name) : Sheet.flatten (query ps) = query ps := by
  have hbrace : '\x7b' ∉ query ps := not_mem_query h rfl (by decide) fun s => by cases s <;> decide
  have hbracket : '[' ∉ query ps := not_mem_query h rfl (by decide) fun s => by cases s <;> decide
  refine Sheet.flatten_of_plain fun c t ht => ?_
  obtain ⟨s, u, hsplit, -⟩ := exists_append_trim (query ps)
  have hmem : c ∈ query ps := by
    rw [hsplit, ht]
    simp
  exact ⟨fun hc => hbrace (hc ▸ hmem), fun hc => hbracket (hc ▸ hmem)⟩

/-! ### Payloads in a sheet -/

theorem flatten_body (h : ∀ p ∈ ps, IsWord p.name) : Sheet.flatten (body ps).pretty =
    Json.spaced " " " " ((fields ps).map fun x => (x.1, x.2.json)) := by
  rw [body_eq, Json.pretty_object, flatten_spaced]
  exact Json.squeezeBlanks_spaced (List.all_eq_true.mp rfl) (List.cons_ne_nil _ _) (List.all_eq_true.mp rfl)
    (List.cons_ne_nil _ _) (isDense_of_mem_fields h)

theorem ofText?_flatten_body (h : ∀ p ∈ ps, IsWord p.name) : Json.ofText? (Sheet.flatten (body ps).pretty) =
    some (.object ((fields ps).map fun x => (x.1, x.2.json))) := by
  rw [flatten_body h]
  exact Json.ofText?_spaced (List.all_eq_true.mp rfl) (List.all_eq_true.mp rfl) (fieldsAreValid_body (fields ps))

theorem isBlank_of_mem_flatten_body (ps : List Parameter) :
    ∀ c ∈ Sheet.flatten (body ps).pretty, isBlank c = false ∨ c = ' ' := by
  rw [body_eq, Json.pretty_object, flatten_spaced]
  exact isBlank_of_mem_squeezeBlanks

theorem writeEndpoints_normal (es : List Endpoint) :
    Sheet.writeEndpoints (es.map Endpoint.normal) = Sheet.writeEndpoints es := by
  rw [Sheet.writeEndpoints, Sheet.writeEndpoints, List.map_map]
  exact congrArg _ (congrArg _ (List.map_congr_left fun e _ => Sheet.endpointRow_normal e))

/-- Flattening changes no query string, and of a body only the white space between its fields. What is flattened stays
    as it is, and so do the rows of a sheet that is read back and written again. -/
theorem flatten_keeps_payload (text : Text) (method : Option HttpMethod) :
    ((method = none ∨ method = some .get) ∧ Sheet.flatten (ofText text method) = ofText text method ∨
      (∃ m, method = some m ∧ m ≠ .get) ∧ ∃ fields, Json.ofText? (ofText text method) = some (.object fields) ∧
        Json.ofText? (Sheet.flatten (ofText text method)) = some (.object fields) ∧
        ∀ c ∈ Sheet.flatten (ofText text method), c ≠ '\n' ∧ (isBlank c = false ∨ c = ' ')) ∧
    (∀ v, Sheet.flatten (Sheet.flatten v) = Sheet.flatten v) ∧
    ∀ es, (Sheet.readEndpoints (encode (Sheet.writeEndpoints es))).map Endpoint.payload =
        es.map (fun e => Sheet.flatten e.payload) ∧
      Sheet.writeEndpoints (Sheet.readEndpoints (encode (Sheet.writeEndpoints es))) = Sheet.writeEndpoints es := by
  have hwords : ∀ p ∈ Parameter.ofText text, IsWord p.name := fun p hp => isWord_name_of_mem hp
  refine ⟨?_, Sheet.flatten_flatten, fun es => ?_⟩
  · by_cases hmethod : method = none ∨ method = some .get
    · have hquery : ofText text method = query (Parameter.ofText text) := by
        rcases hmethod with rfl | rfl <;> rfl
      rw [hquery]
      exact Or.inl ⟨hmethod, flatten_query hwords⟩
    · obtain ⟨hnone, hget⟩ := not_or.mp hmethod
      obtain ⟨m, rfl⟩ := Option.ne_none_iff_exists'.mp hnone
      have hm : m ≠ .get := fun hm => hget (congrArg some hm)
      rw [ofText_some, if_neg hm]
      refine Or.inr ⟨⟨m, rfl, hm⟩, _, ofText?_body _, ofText?_flatten_body hwords, fun c hc => ?_⟩
      have hblank := isBlank_of_mem_flatten_body _ c hc
      refine ⟨?_, hblank⟩
      rintro rfl
      rcases hblank with hblank | hblank <;> cases hblank
  · rw [Sheet.readEndpoints_writeEndpoints, List.map_map]
    exact ⟨rfl, writeEndpoints_normal es⟩

example :
    let text : Text := joinWith "\n" ["optional :a, type: String", "requires :b, type: Float"]
    Sheet.flatten (ofText text (some .post)) = "\x7b \"a\": \"example\", \"b\": 1.23 \x7d" := by
  decide +kernel

end EndpointAtlas.Payload
