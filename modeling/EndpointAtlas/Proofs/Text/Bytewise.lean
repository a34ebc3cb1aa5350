import EndpointAtlas.Proofs.Csv.RoundTrip

/-! Encoded forms one by one and side by side. A form belongs to one text, so that decoding gives that text alone,
    and its first bytes tell its first character. A byte below 0x80 is a whole character, so that such bytes are cut
    out of a form where its text can be cut, and a form falls into the forms of the pieces of its text. -/

namespace EndpointAtlas.Text

theorem decode?_eq_some_iff {bytes : Bytes} {t : Text} : decode? bytes = some t ↔ encode t = bytes := by
  constructor
  · intro h
    have hvalid : bytes.toByteArray.IsValidUTF8 := by
      rw [← ByteArray.isSome_utf8Decode?_iff]
      simpa [decode?] using Option.isSome_of_eq_some h
    obtain ⟨s, hs⟩ := hvalid
    have hbytes : bytes = encode s := List.toByteArray_inj.mp hs
    rw [hbytes, decode?_encode] at h
    cases h
    exact hbytes.symm
  · rintro rfl
    exact decode?_encode t

theorem encode_injective : Function.Injective encode := fun s t h => by
  have hs := decode?_encode s
  rw [h, decode?_encode] at hs
  exact (Option.some.inj hs).symm

theorem decodeChar_encodeChar_append (c : Char) (x : Bytes) :
    (String.utf8EncodeChar c ++ x).toByteArray.utf8DecodeChar? 0 = some c := by
  rw [List.toByteArray_append, ByteArray.utf8DecodeChar?_utf8EncodeChar_append]

/-- The first character is told by the bytes. -/
theorem eq_of_encodeChar_append {c d : Char} {x y : Bytes}
    (h : String.utf8EncodeChar c ++ x = String.utf8EncodeChar d ++ y) : c = d := by
  have hdecode := decodeChar_encodeChar_append c x
  rw [h, decodeChar_encodeChar_append] at hdecode
  exact (Option.some.inj hdecode).symm

/-! ### Pieces of a form -/

theorem encode_joinWith (sep : Text) (ps : List Text) :
    encode (joinWith sep ps) = joinWith (encode sep) (ps.map encode) := by
  induction ps with
  | nil => rfl
  | cons p ps ih =>
    cases ps with
    | nil => rfl
    | cons q ps =>
      rw [joinWith_cons (List.cons_ne_nil q ps), encode_append, encode_append, ih]
      rfl

/-- The pieces of a form are the forms of the pieces. -/
theorem splitOn_encode {d : Char} {b : UInt8} (hd : String.utf8EncodeChar d = [b]) (hb : b.toNat < 0x80) (t : Text) :
    splitOn b (encode t) = (splitOn d t).map encode := by
  have hsep : encode [d] = [b] := by
    rw [encode_cons, hd]
    rfl
  have hjoin := congrArg encode (joinWith_splitOn d t)
  rw [encode_joinWith, hsep] at hjoin
  rw [← hjoin, splitOn_joinWith (by simpa using splitOn_ne_nil d t)]
  intro form hform hmem
  obtain ⟨piece, hpiece, rfl⟩ := List.mem_map.mp hform
  obtain ⟨c, hc, hbyte⟩ := mem_encode.mp hmem
  have hc' := toNat_of_mem_encodeChar hbyte hb
  have hd' := toNat_of_mem_encodeChar (c := d) (hd ▸ List.mem_singleton_self b) hb
  obtain rfl : c = d := Char.toNat_inj.mp (hc'.trans hd'.symm)
  exact not_mem_of_mem_splitOn hpiece hc

/-! ### Forms within a form -/

variable {t : Text} {bytes before w after : Bytes} {b : UInt8}

theorem length_encode (t : Text) : (encode t).length = byteLength t := by
  induction t with
  | nil => rfl
  | cons c t ih => rw [encode_cons, List.length_append, String.length_utf8EncodeChar, ih, byteLength]

theorem getLast?_encode (t : Text) :
    (encode t).getLast? = t.getLast?.bind fun c => (String.utf8EncodeChar c).getLast? := by
  induction t with
  | nil => rfl
  | cons c t ih =>
    have hform : String.utf8EncodeChar c ≠ [] := String.utf8EncodeChar_ne_nil
    rw [encode_cons, List.getLast?_append, ih, List.getLast?_cons]
    cases t.getLast? with
    | none => rfl
    | some d =>
      have hlast : ((String.utf8EncodeChar d).getLast?).isSome = true := by
        rw [List.getLast?_isSome]
        exact String.utf8EncodeChar_ne_nil
      obtain ⟨b, hb⟩ := Option.isSome_iff_exists.mp hlast
      simp [hb]

theorem exists_of_mem_head?_encode (h : b ∈ (encode t).head?) : ∃ c ∈ t.head?, b ∈ String.utf8EncodeChar c := by
  cases t with
  | nil => cases h
  | cons c t =>
    obtain ⟨d, form, hform⟩ := List.exists_cons_of_ne_nil (String.utf8EncodeChar_ne_nil (c := c))
    rw [encode_cons, hform] at h
    cases h
    exact ⟨c, rfl, hform ▸ List.mem_cons_self⟩

/-- Before a byte that is the form of a character stands the form of a text. -/
theorem exists_append_cons_of_encode_eq (h : encode t = before ++ b :: after) (hb : b.toNat < 0x80) :
    ∃ s c u, t = s ++ c :: u ∧ encode s = before ∧ String.utf8EncodeChar c = [b] ∧ encode u = after := by
  induction t generalizing before with
  | nil => simp [encode] at h
  | cons c t ih =>
    rw [encode_cons] at h
    have hlater : ∀ x, before = String.utf8EncodeChar c ++ x → encode t = x ++ b :: after → ∃ s d u,
        c :: t = s ++ d :: u ∧ encode s = before ∧ String.utf8EncodeChar d = [b] ∧ encode u = after := by
      rintro x rfl hx
      obtain ⟨s, d, u, rfl, rfl, hd, hu⟩ := ih hx
      exact ⟨c :: s, d, u, rfl, encode_cons c s, hd, hu⟩
    rcases List.append_eq_append_iff.mp h with ⟨x, hx, hrest⟩ | ⟨y, hy, hrest⟩
    · exact hlater x hx hrest
    · cases y with
      | nil => exact hlater [] (by rw [hy, List.append_nil, List.append_nil]) hrest.symm
      | cons d y =>
        -- The byte belongs to the form of `c`, and is all of it.
        obtain ⟨rfl, rfl⟩ := List.cons.inj hrest
        have hmem : b ∈ String.utf8EncodeChar c := by
          rw [hy]
          exact List.mem_append_right _ List.mem_cons_self
        have hc : c.toNat < 0x80 := toNat_of_mem_encodeChar hmem hb ▸ hb
        rw [encodeChar_of_lt hc] at hy
        have hlength := congrArg List.length hy
        rw [List.length_append, List.length_singleton, List.length_cons] at hlength
        obtain rfl : before = [] := List.length_eq_zero_iff.mp (by omega)
        obtain rfl : y = [] := List.length_eq_zero_iff.mp (by omega)
        exact ⟨[], c, t, rfl, rfl, (encodeChar_of_lt hc).trans hy, rfl⟩

/-- A run of such bytes begins and ends between characters. -/
theorem exists_append_of_encode_eq (h : encode t = before ++ (w ++ after)) (hne : w ≠ [])
    (hw : ∀ b ∈ w, b.toNat < 0x80) :
    ∃ s v u, t = s ++ (v ++ u) ∧ encode s = before ∧ encode v = w ∧ encode u = after := by
  induction w generalizing t before with
  | nil => exact absurd rfl hne
  | cons b w ih =>
    rw [List.forall_mem_cons] at hw
    obtain ⟨s, c, u, rfl, hs, hc, hu⟩ := exists_append_cons_of_encode_eq h hw.1
    by_cases hnil : w = []
    · subst hnil
      exact ⟨s, [c], u, rfl, hs, by rw [encode_cons, hc]; rfl, hu⟩
    · have hfront : encode u = [] ++ (w ++ after) := hu
      obtain ⟨x, v, y, rfl, hx, hv, hy⟩ := ih hfront hnil hw.2
      have hxnil : x = [] := encode_injective hx
      subst hxnil
      exact ⟨s, c :: v, y, rfl, hs, by rw [encode_cons, hc, hv]; rfl, hy⟩

end EndpointAtlas.Text
