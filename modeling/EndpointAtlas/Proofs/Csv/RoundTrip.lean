import EndpointAtlas.Csv.Reader
import EndpointAtlas.Csv.Writer
import EndpointAtlas.Proofs.Text.Pieces

/-! What the writer writes, the reader reads: the rows of a written file are the rows that were written,
    whatever their fields hold. The structuring bytes are below 0x80, so none of them is part of the
    encoded form of another character; a field is then read either through (`run_plain`) or between its
    quotes (`run_doubleQuotes`), and a row field by field. -/

namespace EndpointAtlas

/-! ### Encoded characters -/

namespace Text

theorem encodeChar_of_lt {c : Char} (h : c.toNat < 0x80) : String.utf8EncodeChar c = [UInt8.ofNat c.toNat] := by
  have hv : c.val.toNat ≤ 0x7f := Nat.le_of_lt_succ h
  unfold String.utf8EncodeChar
  exact if_pos hv

theorem le_of_mem_encodeChar {c : Char} (h : 0x80 ≤ c.toNat) {b : UInt8} (hb : b ∈ String.utf8EncodeChar c) :
    0x80 ≤ b.toNat := by
  have hv : ¬c.val.toNat ≤ 0x7f := Nat.not_le_of_lt h
  revert hb
  simp only [String.utf8EncodeChar, hv, if_false]
  split
  · simp only [List.mem_cons, List.not_mem_nil, or_false]
    rintro (rfl | rfl) <;> simp only [UInt8.toNat_ofNat'] <;> omega
  · split
    · simp only [List.mem_cons, List.not_mem_nil, or_false]
      rintro (rfl | rfl | rfl) <;> simp only [UInt8.toNat_ofNat'] <;> omega
    · simp only [List.mem_cons, List.not_mem_nil, or_false]
      rintro (rfl | rfl | rfl | rfl) <;> simp only [UInt8.toNat_ofNat'] <;> omega

/-- A byte below 0x80 stands for the one character that has its number. -/
theorem toNat_of_mem_encodeChar {c : Char} {b : UInt8} (hb : b ∈ String.utf8EncodeChar c) (h : b.toNat < 0x80) :
    c.toNat = b.toNat := by
  by_cases hc : c.toNat < 0x80
  · rw [encodeChar_of_lt hc, List.mem_singleton] at hb
    rw [hb, UInt8.toNat_ofNat']
    omega
  · exact absurd (le_of_mem_encodeChar (Nat.le_of_not_lt hc) hb) (Nat.not_le_of_lt h)

theorem eq_of_mem_encodeChar {c d : Char} {b : UInt8} (hb : b ∈ String.utf8EncodeChar c) (hd : d.toNat < 0x80)
    (h : b.toNat = d.toNat) : c = d :=
  Char.toNat_inj.mp ((toNat_of_mem_encodeChar hb (h ▸ hd)).trans h)

theorem encode_cons (c : Char) (t : Text) : encode (c :: t) = String.utf8EncodeChar c ++ encode t := rfl

theorem mem_encode {t : Text} {b : UInt8} : b ∈ encode t ↔ ∃ c ∈ t, b ∈ String.utf8EncodeChar c :=
  List.mem_flatMap

end Text

namespace Csv
open Text

theorem endsRow_eq_false_iff {b : UInt8} : endsRow b = false ↔ b ≠ lineFeed ∧ b ≠ carriageReturn := by
  simp [endsRow]

theorem isSpecial_eq_false_iff {c : Char} :
    isSpecial c = false ↔ c ≠ ',' ∧ c ≠ '"' ∧ c ≠ '\r' ∧ c ≠ '\n' := by
  simp [isSpecial, and_assoc]

theorem endsRow_of_mem_encodeChar {c : Char} (hn : c ≠ '\n') (hr : c ≠ '\r') {b : UInt8}
    (hb : b ∈ String.utf8EncodeChar c) : endsRow b = false := by
  rw [endsRow_eq_false_iff]
  constructor
  · rintro rfl
    exact hn (eq_of_mem_encodeChar hb (by decide) (by decide))
  · rintro rfl
    exact hr (eq_of_mem_encodeChar hb (by decide) (by decide))

/-- A field that is written as it stands holds no byte with a meaning of its own. -/
theorem plain_of_mem_encode {f : Text} (hf : f.any isSpecial = false) {b : UInt8} (hb : b ∈ encode f) :
    b ≠ comma ∧ b ≠ quote ∧ endsRow b = false := by
  obtain ⟨c, hc, hb⟩ := mem_encode.mp hb
  obtain ⟨h1, h2, h3, h4⟩ := isSpecial_eq_false_iff.mp (Bool.eq_false_iff.mpr (List.any_eq_false.mp hf c hc))
  refine ⟨?_, ?_, endsRow_of_mem_encodeChar h4 h3 hb⟩
  · rintro rfl
    exact h1 (eq_of_mem_encodeChar hb (by decide) (by decide))
  · rintro rfl
    exact h2 (eq_of_mem_encodeChar hb (by decide) (by decide))

/-! ### Reading a field -/

namespace Scan
variable {fields : Row} {field rest : Bytes}

theorem run_cons (s : Scan) (b : UInt8) (bytes : Bytes) :
    s.run (b :: bytes) = (s.step b).1.toList ++ (s.step b).2.run bytes := rfl

theorem run_plain {bytes : Bytes} (h : ∀ b ∈ bytes, b ≠ comma ∧ endsRow b = false) :
    run ⟨.plain, fields, field⟩ (bytes ++ rest) = run ⟨.plain, fields, field ++ bytes⟩ rest := by
  induction bytes generalizing field with
  | nil => simp
  | cons b bytes ih =>
    obtain ⟨hc, he⟩ := h b List.mem_cons_self
    have hstep : step ⟨.plain, fields, field⟩ b = (none, ⟨.plain, fields, field ++ [b]⟩) := by
      simp [step, outsideQuotes, push, hc, he]
    rw [List.cons_append, run_cons, hstep, Option.toList_none, List.nil_append,
      ih fun d hd => h d (List.mem_cons_of_mem _ hd), List.append_assoc, List.singleton_append]

theorem run_quoted {bytes : Bytes} (h : ∀ b ∈ bytes, b ≠ quote) :
    run ⟨.quoted, fields, field⟩ (bytes ++ rest) = run ⟨.quoted, fields, field ++ bytes⟩ rest := by
  induction bytes generalizing field with
  | nil => simp
  | cons b bytes ih =>
    have hstep : step ⟨.quoted, fields, field⟩ b = (none, ⟨.quoted, fields, field ++ [b]⟩) := by
      simp [step, push, h b List.mem_cons_self]
    rw [List.cons_append, run_cons, hstep, Option.toList_none, List.nil_append,
      ih fun d hd => h d (List.mem_cons_of_mem _ hd), List.append_assoc, List.singleton_append]

theorem run_doubleQuotes {f : Text} :
    run ⟨.quoted, fields, field⟩ (encode (doubleQuotes f) ++ rest) =
      run ⟨.quoted, fields, field ++ encode f⟩ rest := by
  induction f generalizing field with
  | nil => simp [doubleQuotes, encode]
  | cons c f ih =>
    by_cases hc : c = '"'
    · subst hc
      have hbytes : encode (doubleQuotes ('"' :: f)) ++ rest =
          quote :: quote :: (encode (doubleQuotes f) ++ rest) := rfl
      have hopen : step ⟨.quoted, fields, field⟩ quote = (none, ⟨.quoteSeen, fields, field⟩) := by
        simp [step]
      have hdouble : step ⟨.quoteSeen, fields, field⟩ quote = (none, ⟨.quoted, fields, field ++ [quote]⟩) := by
        simp [step, push]
      rw [hbytes, run_cons, hopen, Option.toList_none, List.nil_append, run_cons, hdouble, Option.toList_none,
        List.nil_append, ih, List.append_assoc]
      rfl
    · have hbytes : encode (doubleQuotes (c :: f)) ++ rest =
          String.utf8EncodeChar c ++ (encode (doubleQuotes f) ++ rest) := by
        simp [doubleQuotes, encode, hc]
      have hquote : ∀ b ∈ String.utf8EncodeChar c, b ≠ quote := by
        rintro b hb rfl
        exact hc (eq_of_mem_encodeChar hb (by decide) (by decide))
      rw [hbytes, run_quoted hquote, ih, List.append_assoc, encode_cons]

/-- Places at which a comma ends a field and a line feed ends a row. -/
def EndsField (p : Place) : Prop := p = .fieldStart ∨ p = .plain ∨ p = .quoteSeen

theorem step_comma {p : Place} (h : EndsField p) :
    step ⟨p, fields, field⟩ comma = (none, ⟨.fieldStart, fields ++ [field], []⟩) := by
  rcases h with rfl | rfl | rfl <;> rfl

theorem step_lineFeed {p : Place} (h : EndsField p) :
    step ⟨p, fields, field⟩ lineFeed = (some (fields ++ [field]), start) := by
  rcases h with rfl | rfl | rfl <;> rfl

theorem run_writeField (fields : Row) (f : Text) : ∃ p, EndsField p ∧ ∀ rest,
    run ⟨.fieldStart, fields, []⟩ (encode (writeField f) ++ rest) = run ⟨p, fields, encode f⟩ rest := by
  unfold writeField
  by_cases hf : f.any isSpecial = true
  · refine ⟨.quoteSeen, Or.inr (Or.inr rfl), fun rest => ?_⟩
    have hbytes : encode ('"' :: doubleQuotes f ++ ['"']) ++ rest =
        quote :: (encode (doubleQuotes f) ++ quote :: rest) := by
      rw [encode_append, List.append_assoc]
      rfl
    rw [if_pos hf, hbytes, run_cons]
    show run ⟨.quoted, fields, []⟩ (encode (doubleQuotes f) ++ quote :: rest) = _
    rw [run_doubleQuotes, run_cons]
    rfl
  · rw [if_neg hf]
    rw [Bool.not_eq_true] at hf
    have hplain : ∀ b ∈ encode f, b ≠ comma ∧ b ≠ quote ∧ endsRow b = false := fun b => plain_of_mem_encode hf
    cases hbytes : encode f with
    | nil => exact ⟨.fieldStart, Or.inl rfl, fun _ => rfl⟩
    | cons b bytes =>
      rw [hbytes] at hplain
      obtain ⟨hc, hq, he⟩ := hplain b List.mem_cons_self
      refine ⟨.plain, Or.inr (Or.inl rfl), fun rest => ?_⟩
      have hstep : step ⟨.fieldStart, fields, []⟩ b = (none, ⟨.plain, fields, [b]⟩) := by
        simp [step, atFieldStart, outsideQuotes, push, hc, hq, he]
      rw [List.cons_append, run_cons, hstep]
      exact run_plain fun d hd =>
        have h := hplain d (List.mem_cons_of_mem _ hd)
        ⟨h.1, h.2.2⟩

/-! ### Reading a row -/

theorem run_joinWith_writeField {row : List Text} (hrow : row ≠ []) (fields : Row) (rest : Bytes) :
    run ⟨.fieldStart, fields, []⟩ (encode (joinWith "," (row.map writeField)) ++ lineFeed :: rest) =
      (fields ++ row.map encode) :: run start rest := by
  induction row generalizing fields with
  | nil => exact absurd rfl hrow
  | cons f row ih =>
    obtain ⟨p, hp, hread⟩ := run_writeField fields f
    cases row with
    | nil =>
      show run _ (encode (writeField f) ++ lineFeed :: rest) = _
      rw [hread, run_cons, step_lineFeed hp]
      rfl
    | cons g row =>
      have hbytes : encode (joinWith "," ((f :: g :: row).map writeField)) ++ lineFeed :: rest =
          encode (writeField f) ++
            comma :: (encode (joinWith "," ((g :: row).map writeField)) ++ lineFeed :: rest) := by
        simp only [List.map_cons, joinWith, encode_append, List.append_assoc]
        rfl
      rw [hbytes, hread, run_cons, step_comma hp, Option.toList_none, List.nil_append,
        ih (List.cons_ne_nil g row), List.append_assoc]
      rfl

/-- Between rows a byte that ends no row begins a field. -/
theorem run_start_cons {b : UInt8} (h : endsRow b = false) (bytes : Bytes) :
    run start (b :: bytes) = run ⟨.fieldStart, [], []⟩ (b :: bytes) := by
  have hstep : step start b = step ⟨.fieldStart, [], []⟩ b := by
    simp [step, start, h, atFieldStart, outsideQuotes, push]
  rw [run_cons, hstep, ← run_cons]

end Scan

theorem head_writeField {f : Text} {c : Char} {t : Text} (h : writeField f = c :: t) : c ≠ '\n' ∧ c ≠ '\r' := by
  unfold writeField at h
  by_cases hf : f.any isSpecial = true
  · rw [if_pos hf] at h
    obtain ⟨rfl, -⟩ := List.cons.inj h
    decide
  · rw [if_neg hf] at h
    subst h
    rw [Bool.not_eq_true, List.any_cons, Bool.or_eq_false_iff] at hf
    obtain ⟨-, -, hr, hn⟩ := isSpecial_eq_false_iff.mp hf.1
    exact ⟨hn, hr⟩

theorem head_joinWith_writeField {row : List Text} {c : Char} {t : Text}
    (h : joinWith "," (row.map writeField) = c :: t) : c ≠ '\n' ∧ c ≠ '\r' := by
  match row with
  | [] => cases h
  | [f] => exact head_writeField h
  | f :: g :: row =>
    cases hf : writeField f with
    | nil =>
      have hcomma : joinWith "," ((f :: g :: row).map writeField) =
          ',' :: joinWith "," ((g :: row).map writeField) := by
        simp [joinWith, hf]
      obtain ⟨rfl, -⟩ := List.cons.inj (hcomma.symm.trans h)
      decide
    | cons d u =>
      have hfirst : joinWith "," ((f :: g :: row).map writeField) =
          d :: (u ++ "," ++ joinWith "," ((g :: row).map writeField)) := by
        simp [joinWith, hf]
      obtain ⟨rfl, -⟩ := List.cons.inj (hfirst.symm.trans h)
      exact head_writeField hf

/-- Only a row of one empty field leaves its line empty. -/
theorem eq_singleton_of_joinWith_eq_nil {row : List Text} (hrow : row ≠ [])
    (h : joinWith "," (row.map writeField) = []) : row = [[]] := by
  match row with
  | [] => exact absurd rfl hrow
  | [f] =>
    have hf : writeField f = [] := h
    unfold writeField at hf
    split at hf
    · cases hf
    · rw [hf]
  | f :: g :: row => simp [joinWith] at h

open Scan in
theorem run_writeRow {row : List Text} (hrow : row ≠ []) (rest : Bytes) :
    run start (encode (writeRow row) ++ rest) = row.map encode :: run start rest := by
  unfold writeRow
  cases hline : joinWith "," (row.map writeField) with
  | nil =>
    obtain rfl := eq_singleton_of_joinWith_eq_nil hrow hline
    rfl
  | cons c t =>
    obtain ⟨hn, hr⟩ := head_joinWith_writeField hline
    have hbytes : encode ((if (c :: t).isEmpty then ['"', '"'] else c :: t) ++ ['\n']) ++ rest =
        encode (joinWith "," (row.map writeField)) ++ lineFeed :: rest := by
      rw [hline, if_neg (by simp), encode_append, List.append_assoc]
      rfl
    have hfields := run_joinWith_writeField hrow [] rest
    rw [List.nil_append] at hfields
    rw [hbytes, ← hfields, hline, encode_cons]
    cases hfirst : String.utf8EncodeChar c with
    | nil => exact absurd hfirst String.utf8EncodeChar_ne_nil
    | cons b bytes =>
      have hb : b ∈ String.utf8EncodeChar c := hfirst ▸ List.mem_cons_self
      exact run_start_cons (endsRow_of_mem_encodeChar hn hr hb) _

open Scan in
theorem run_write {table : List (List Text)} (h : ∀ row ∈ table, row ≠ []) :
    run start (encode (write table)) = table.map (List.map encode) := by
  induction table with
  | nil => rfl
  | cons row table ih =>
    have hbytes : encode (write (row :: table)) = encode (writeRow row) ++ encode (write table) :=
      encode_append _ _
    rw [hbytes, run_writeRow (h row List.mem_cons_self), ih fun r hr => h r (List.mem_cons_of_mem _ hr)]
    rfl

/-! ### Reading a file -/

theorem mapM_decode?_map_encode (row : List Text) : (row.map encode).mapM decode? = some row := by
  induction row with
  | nil => rfl
  | cons f row ih => simp [List.mapM_cons, decode?_encode, ih]

theorem dropMark_encode_cons {c : Char} (hc : c.toNat < 0x80) (t : Text) :
    dropMark (encode (c :: t)) = encode (c :: t) := by
  have hmark : byteOrderMark.isPrefixOf (encode (c :: t)) = false := by
    rw [encode_cons, encodeChar_of_lt hc, List.singleton_append, byteOrderMark, List.isPrefixOf_cons_cons,
      Bool.and_eq_false_iff, beq_eq_false_iff_ne]
    left
    intro heq
    have hnat := congrArg UInt8.toNat heq
    rw [UInt8.toNat_ofNat'] at hnat
    have : (0xEF : UInt8).toNat = 0xEF := rfl
    omega
  rw [dropMark, hmark, if_neg Bool.false_ne_true]

/-- A file begins like its first title. -/
theorem exists_write_eq_cons {c : Char} {t : Text} (h : (c :: t).any isSpecial = false) (titles : List Text)
    (table : List (List Text)) : ∃ u, write (((c :: t) :: titles) :: table) = c :: u := by
  have hfield : writeField (c :: t) = c :: t := by
    rw [writeField, h, if_neg Bool.false_ne_true]
  have hline : ∃ u, joinWith "," (((c :: t) :: titles).map writeField) = c :: u := by
    cases titles with
    | nil => exact ⟨t, hfield⟩
    | cons title titles =>
      refine ⟨t ++ "," ++ joinWith "," ((title :: titles).map writeField), ?_⟩
      rw [List.map_cons, joinWith_cons (by simp), hfield, List.append_assoc, List.append_assoc, List.cons_append]
  obtain ⟨u, hu⟩ := hline
  refine ⟨u ++ ['\n'] ++ write table, ?_⟩
  have hrow : writeRow ((c :: t) :: titles) = c :: (u ++ ['\n']) := by
    rw [writeRow, hu]
    rfl
  rw [write, List.flatMap_cons, hrow, List.cons_append]
  rfl

/-- The first title is a plain word that begins with a character of ASCII, so that the file does not begin
    with a mark. -/
def PlainTitles (titles : List Text) : Prop :=
  ∃ c t more, titles = (c :: t) :: more ∧ c.toNat < 0x80 ∧ (c :: t).any isSpecial = false

theorem rows_write {titles : List Text} (htitles : PlainTitles titles) {table : List (List Text)}
    (h : ∀ row ∈ table, row ≠ []) :
    rows (encode (write (titles :: table))) = (titles :: table).map (List.map encode) := by
  obtain ⟨c, t, more, rfl, hc, hplain⟩ := htitles
  obtain ⟨u, hu⟩ := exists_write_eq_cons hplain more table
  rw [rows, hu, dropMark_encode_cons hc, ← hu]
  refine run_write fun row hrow => ?_
  rcases List.mem_cons.mp hrow with rfl | hrow
  · exact List.cons_ne_nil _ _
  · exact h row hrow

/-- Reading a written table gives the rows behind the titles that are wide enough, as they were written. -/
theorem read_write {titles : List Text} (htitles : PlainTitles titles) {table : List (List Text)} (width : Nat)
    (h : ∀ row ∈ table, row ≠ []) :
    read width (encode (write (titles :: table))) = table.filter (width ≤ ·.length) := by
  rw [read, rows_write htitles h, List.map_cons, List.drop_one, List.tail_cons, List.filterMap_map,
    ← List.filterMap_eq_filter]
  congr 1
  funext row
  simp only [Function.comp_apply, List.length_map, mapM_decode?_map_encode, Option.guard]
  by_cases hw : row.length < width
  · simp [hw, Nat.not_le_of_lt hw]
  · simp [hw, Nat.le_of_not_lt hw]

end Csv

end EndpointAtlas
