import EndpointAtlas.Atlas
import EndpointAtlas.Proofs.Json.RoundTrip

/-! The summary of a run, read back from its text. A count comes back as the number that it is and a key with
    the texts that it has, whatever characters stand in them. -/

namespace EndpointAtlas
open Json Text

/-- What the summary of a run tells. -/
structure Summary where
  time : Text
  northboundFiles : Nat
  southboundFiles : Nat
  skippedFiles : Nat
  endpointRecords : Nat
  backendRecords : Nat
  combinedRecords : Nat
  unmatched : List CallKey
  orphaned : List CallKey
  deriving DecidableEq, Repr

/-- The key that an object of the summary tells. -/
def CallKey.ofJson? (j : Json) : Option CallKey := do
  return ⟨← j.field? "version" >>= text?, ← j.field? "method" >>= text?⟩

namespace Summary

/-- The summary read back from its document. -/
def ofJson? (j : Json) : Option Summary := do
  let count (name : Text) : Option Nat := j.field? name >>= nat?
  let keys (name : Text) : Option (List CallKey) := j.field? name >>= items? >>= List.mapM CallKey.ofJson?
  return {
    time := ← j.field? "generated_at" >>= text?
    northboundFiles := ← count "northbound_files"
    southboundFiles := ← count "southbound_files"
    skippedFiles := ← count "skipped_files"
    endpointRecords := ← count "endpoint_records"
    backendRecords := ← count "backend_records"
    combinedRecords := ← count "combined_records"
    unmatched := ← keys "unmatched_keys"
    orphaned := ← keys "orphaned_backend_keys" }

/-- The summary that a file holds. -/
def ofBytes? (bytes : Bytes) : Option Summary := decode? bytes >>= Json.ofText? >>= ofJson?

end Summary

/-- The summary of an atlas that was made at a time. -/
def Atlas.told (a : Atlas) (time : Text) : Summary where
  time := time
  northboundFiles := a.northboundFiles
  southboundFiles := a.southboundFiles
  skippedFiles := a.skippedFiles
  endpointRecords := a.endpoints.length
  backendRecords := a.backends.length
  combinedRecords := a.joined.links.length
  unmatched := a.joined.unmatched
  orphaned := a.joined.orphaned

/-! ### Counts -/

theorem digitChar_ne_zero {n : Nat} (hpos : 0 < n) (h : n < 10) : n.digitChar ≠ '0' := by
  have hall : ∀ m < 10, 0 < m → m.digitChar ≠ '0' := by decide
  exact hall n h hpos

theorem head_ofNat_ne_zero {n : Nat} (hpos : 0 < n) {c : Char} {t : Text} (h : ofNat n = c :: t) : c ≠ '0' := by
  unfold ofNat at h
  induction n using Nat.strongRecOn generalizing t with
  | ind n ih =>
    rw [Nat.toDigits_eq_if (by decide)] at h
    by_cases hn : n < 10
    · rw [if_pos hn] at h
      rw [← (List.cons.inj h).1]
      exact digitChar_ne_zero hpos hn
    · rw [if_neg hn] at h
      obtain ⟨d, u, hd⟩ := List.exists_cons_of_ne_nil (Nat.toDigits_ne_nil : Nat.toDigits 10 (n / 10) ≠ [])
      rw [hd, List.cons_append] at h
      rw [(List.cons.inj h).1] at hd
      exact ih (n / 10) (by omega) (by omega) hd

theorem isDigit_of_mem_ofNat {n : Nat} {c : Char} (hc : c ∈ ofNat n) : c.isDigit = true :=
  Nat.isDigit_of_mem_toDigits (by decide) (by decide) hc

theorem isNumber_ofNat (n : Nat) : isNumber (ofNat n) = true := by
  rcases Nat.eq_zero_or_pos n with rfl | hpos
  · rfl
  · obtain ⟨c, t, hdigits⟩ := List.exists_cons_of_ne_nil (Nat.toDigits_ne_nil : ofNat n ≠ [])
    have hall : ∀ d ∈ c :: t, d.isDigit = true := fun d hd => isDigit_of_mem_ofNat (hdigits ▸ hd)
    have hsign : (c :: t).head? ≠ some '-' := by
      rintro ⟨⟩
      cases hall '-' List.mem_cons_self
    have hrest : t.dropWhile Char.isDigit = [] :=
      List.dropWhile_eq_nil_iff.mpr fun d hd => hall d (List.mem_cons_of_mem _ hd)
    have hn : ofNat n = c :: t := hdigits
    rw [hn, isNumber, if_neg hsign, isUnsigned, if_neg (head_ofNat_ne_zero hpos hdigits),
      hall c List.mem_cons_self, hrest]
    rfl

theorem nat?_ofNat (n : Nat) : nat? (number (ofNat n)) = some n := by
  have hdigits : List.all (ofNat n) Char.isDigit = true := by
    rw [List.all_eq_true]
    exact fun c hc => isDigit_of_mem_ofNat hc
  rw [nat?, if_pos hdigits]
  exact congrArg some Nat.ofDigitChars_ten_toDigits

/-! ### Keys -/

theorem ofJson?_json (k : CallKey) : CallKey.ofJson? k.json = some k := rfl

theorem mapM_ofJson?_json (ks : List CallKey) : (ks.map CallKey.json).mapM CallKey.ofJson? = some ks := by
  induction ks with
  | nil => rfl
  | cons k ks ih =>
    rw [List.map_cons, List.mapM_cons, ofJson?_json, ih]
    rfl

theorem areValid_map_json (ks : List CallKey) : areValid (ks.map CallKey.json) = true := by
  induction ks with
  | nil => rfl
  | cons k ks ih => exact ih

/-! ### The summary -/

theorem isValid_summary (a : Atlas) (time : Text) : (a.summary time).isValid = true := by
  simp [Atlas.summary, isValid, fieldsAreValid, isNumber_ofNat, areValid_map_json]

section Fields
variable (a : Atlas) (time : Text)

theorem count_of_field (name : Text) {n : Nat} (h : (a.summary time).field? name = some (number (ofNat n))) :
    ((a.summary time).field? name >>= nat?) = some n := by
  rw [h]
  exact nat?_ofNat n

theorem keys_of_field (name : Text) {ks : List CallKey}
    (h : (a.summary time).field? name = some (array (ks.map CallKey.json))) :
    ((a.summary time).field? name >>= items? >>= List.mapM CallKey.ofJson?) = some ks := by
  rw [h]
  exact mapM_ofJson?_json ks

theorem ofJson?_summary : Summary.ofJson? (a.summary time) = some (a.told time) := by
  have htime : ((a.summary time).field? "generated_at" >>= text?) = some time := rfl
  unfold Summary.ofJson?
  simp only [htime, count_of_field a time "northbound_files" rfl, count_of_field a time "southbound_files" rfl,
    count_of_field a time "skipped_files" rfl, count_of_field a time "endpoint_records" rfl,
    count_of_field a time "backend_records" rfl, count_of_field a time "combined_records" rfl,
    keys_of_field a time "unmatched_keys" rfl, keys_of_field a time "orphaned_backend_keys" rfl]
  rfl

end Fields

/-- The summary that is written tells what the run has found. -/
theorem ofBytes?_summary (a : Atlas) (time : Text) :
    Summary.ofBytes? (encode (a.summary time).pretty) = some (a.told time) := by
  rw [Summary.ofBytes?, decode?_encode]
  show (Json.ofText? (a.summary time).pretty >>= Summary.ofJson?) = _
  rw [ofText?_pretty (isValid_summary a time)]
  exact ofJson?_summary a time

end EndpointAtlas
