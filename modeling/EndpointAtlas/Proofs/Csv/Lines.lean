import EndpointAtlas.Proofs.Text.Bytewise

/-! A file line by line. A line that is written from a row is read as this row, and a line whose bytes decode to no text
    is read as a row that is passed over: either way the reader stands between rows again behind its line feed, so that
    no line changes what is read from another. -/

namespace EndpointAtlas.Csv
open Text

/-- A line of a file: a written row, or bytes that are no text and structure nothing but fields. -/
inductive Line where
  | row (fields : List Text) (nonempty : fields ≠ [])
  | undecodable (bytes : Bytes) (no_text : decode? bytes = none) (plain : ∀ b ∈ bytes, b ≠ quote ∧ endsRow b = false)

namespace Line

/-- The bytes of a line, with the line feed behind it. -/
def encode : Line → Bytes
  | row fields _ => Text.encode (writeRow fields)
  | undecodable bytes _ _ => bytes ++ [lineFeed]

/-- The fields of a written row. -/
def fields? : Line → Option (List Text)
  | row fields _ => some fields
  | undecodable _ _ _ => none

end Line

/-- The titles that a file begins with. The mark alone is none: it would leave the line empty. -/
structure Header where
  titles : List Text
  nonempty : titles ≠ []
  unmarked : titles ≠ [['\uFEFF']]

/-- A file with its header and its lines. -/
def file (header : Header) (lines : List Line) : Bytes :=
  encode (writeRow header.titles) ++ lines.flatMap Line.encode

variable {rest : Bytes}

/-! ### Lines without quotes -/

namespace Scan
variable {fields : Row} {field : Bytes}

/-- Without quotes a line is a row whose fields stand between its commas. -/
theorem run_unquoted {bytes : Bytes} (h : ∀ b ∈ bytes, b ≠ quote ∧ endsRow b = false) {p : Place}
    (hp : p = .fieldStart ∨ p = .plain) (fields : Row) (field rest : Bytes) :
    ∃ more, more ≠ [] ∧ [comma].intercalate more = field ++ bytes ∧
      run ⟨p, fields, field⟩ (bytes ++ lineFeed :: rest) = (fields ++ more) :: run start rest := by
  have hends : EndsField p := hp.imp_right Or.inl
  induction bytes generalizing p fields field with
  | nil =>
    refine ⟨[field], by simp, by simp, ?_⟩
    rw [List.nil_append, run_cons, step_lineFeed hends]
    rfl
  | cons b bytes ih =>
    obtain ⟨hquote, hrow⟩ := h b List.mem_cons_self
    have hbytes := fun d hd => h d (List.mem_cons_of_mem b hd)
    rw [List.cons_append, run_cons]
    -- A comma ends the field, and any other byte is put to it.
    by_cases hcomma : b = comma
    · obtain ⟨more, hne, hmore, hrun⟩ := ih hbytes (Or.inl rfl) (fields ++ [field]) [] (Or.inl rfl)
      refine ⟨field :: more, by simp, ?_, ?_⟩
      · rw [List.intercalate_cons_of_ne_nil hne, hmore, hcomma]
        simp
      · rw [hcomma, step_comma hends, Option.toList_none, List.nil_append, hrun]
        simp
    · obtain ⟨more, hne, hmore, hrun⟩ := ih hbytes (Or.inr rfl) fields (field ++ [b]) (Or.inr (Or.inl rfl))
      have hstep : step ⟨p, fields, field⟩ b = (none, ⟨.plain, fields, field ++ [b]⟩) := by
        rcases hp with rfl | rfl <;> simp [step, atFieldStart, outsideQuotes, push, hquote, hcomma, hrow]
      refine ⟨more, hne, by simpa using hmore, ?_⟩
      rw [hstep, Option.toList_none, List.nil_append, hrun]

end Scan

theorem encode_joinWith_comma (ts : List Text) : encode (joinWith [','] ts) = [comma].intercalate (ts.map encode) := by
  induction ts with
  | nil => rfl
  | cons t ts ih =>
    cases ts with
    | nil => simp [joinWith]
    | cons u us =>
      rw [joinWith_cons (by simp), encode_append, encode_append, ih, List.map_cons, List.map_cons,
        List.map_cons, List.intercalate_cons_cons]
      rfl

theorem eq_map_encode_of_mapM_decode? {row : Row} {ts : List Text} (h : row.mapM decode? = some ts) :
    row = ts.map encode := by
  induction row generalizing ts with
  | nil =>
    cases h
    rfl
  | cons field row ih =>
    simp only [List.mapM_cons, Option.bind_eq_bind, Option.bind_eq_some_iff] at h
    obtain ⟨t, ht, us, hus, heq⟩ := h
    cases heq
    rw [List.map_cons, ← ih hus, decode?_eq_some_iff.mp ht]

/-- Where all fields are texts, so is the line. -/
theorem run_undecodable {bytes : Bytes} (htext : decode? bytes = none) (h : ∀ b ∈ bytes, b ≠ quote ∧ endsRow b = false)
    (rest : Bytes) : ∃ row : Row, row.mapM decode? = none ∧
      Scan.start.run (bytes ++ lineFeed :: rest) = row :: Scan.start.run rest := by
  obtain ⟨row, -, hrow, hrun⟩ := Scan.run_unquoted h (Or.inl rfl) [] [] rest
  refine ⟨row, ?_, ?_⟩
  · rw [Option.eq_none_iff_forall_ne_some]
    intro ts hts
    -- The line would be the form of the texts between commas.
    rw [eq_map_encode_of_mapM_decode? hts, ← encode_joinWith_comma] at hrow
    rw [List.nil_append] at hrow
    rw [← hrow, decode?_encode] at htext
    cases htext
  · cases bytes with
    | nil => cases htext
    | cons b bytes =>
      rw [List.cons_append, Scan.run_start_cons (h b List.mem_cons_self).2]
      exact hrun

/-! ### Line by line -/

/-- The fields of a row that is wide enough and all text. -/
def Line.read? (width : Nat) (l : Line) : Option (List Text) := l.fields?.filter (width ≤ ·.length)

theorem filterMap_run_encode (width : Nat) (l : Line) (rest : Bytes) :
    (Scan.start.run (l.encode ++ rest)).filterMap
        (fun row => if row.length < width then none else row.mapM decode?) =
      (l.read? width).toList ++
        (Scan.start.run rest).filterMap fun row => if row.length < width then none else row.mapM decode? := by
  cases l with
  | row fields hfields =>
    rw [Line.encode, run_writeRow hfields]
    simp only [List.filterMap_cons, List.length_map, mapM_decode?_map_encode, Line.read?, Line.fields?,
      Option.filter_some]
    by_cases hw : fields.length < width
    · simp [hw, Nat.not_le_of_lt hw]
    · simp [hw, Nat.le_of_not_lt hw]
  | undecodable bytes htext hplain =>
    obtain ⟨row, hrow, hrun⟩ := run_undecodable htext hplain rest
    rw [Line.encode, List.append_assoc, List.singleton_append, hrun]
    simp [hrow, Line.read?, Line.fields?]

theorem filterMap_run_lines (width : Nat) (lines : List Line) :
    (Scan.start.run (lines.flatMap Line.encode)).filterMap
        (fun row => if row.length < width then none else row.mapM decode?) = lines.filterMap (Line.read? width) := by
  induction lines with
  | nil => rfl
  | cons l lines ih =>
    rw [List.flatMap_cons, filterMap_run_encode, ih, List.filterMap_cons]
    cases l.read? width <;> rfl

/-! ### The header -/

theorem dropMark_encodeChar_append (c : Char) (bytes : Bytes) : dropMark (String.utf8EncodeChar c ++ bytes) =
    if c = '\uFEFF' then bytes else String.utf8EncodeChar c ++ bytes := by
  have hmark : byteOrderMark = String.utf8EncodeChar '\uFEFF' := by decide
  have hmarked : byteOrderMark.isPrefixOf (String.utf8EncodeChar c ++ bytes) = true ↔ c = '\uFEFF' := by
    rw [List.isPrefixOf_iff_prefix, hmark]
    constructor
    · rintro ⟨more, hmore⟩
      exact (eq_of_encodeChar_append hmore).symm
    · rintro rfl
      exact List.prefix_append _ _
  by_cases hc : c = '\uFEFF'
  · rw [dropMark, if_pos (hmarked.mpr hc), if_pos hc, hc, hmark, List.drop_left]
  · rw [dropMark, if_neg (mt hmarked.mp hc), if_neg hc]

/-- A line that begins with the mark begins with a title that does. -/
theorem exists_title_of_mark {titles : List Text} {u : Text} (h : writeRow titles = '\uFEFF' :: u) :
    ∃ t more, titles = ('\uFEFF' :: t) :: more ∧ t.any isSpecial = false := by
  cases titles with
  | nil => cases h
  | cons f more =>
    cases hf : writeField f with
    | nil => cases more <;> simp [writeRow, joinWith, hf] at h
    | cons c v =>
      rw [writeRow, List.map_cons, hf, joinWith_cons_cons] at h
      obtain ⟨rfl, -⟩ := List.cons.inj h
      unfold writeField at hf
      by_cases hspecial : f.any isSpecial = true
      · rw [if_pos hspecial] at hf
        cases hf
      · rw [if_neg hspecial] at hf
        subst hf
        exact ⟨v, more, rfl, by simpa [isSpecial] using hspecial⟩

theorem writeRow_mark {t : Text} (ht : t.any isSpecial = false) {more : List Text} (hne : t :: more ≠ [[]]) :
    writeRow (('\uFEFF' :: t) :: more) = '\uFEFF' :: writeRow (t :: more) := by
  have hfield : writeField ('\uFEFF' :: t) = '\uFEFF' :: writeField t := by
    simp [writeField, ht, isSpecial]
  have hline : joinWith "," ((t :: more).map writeField) ≠ [] := fun hempty =>
    hne (eq_singleton_of_joinWith_eq_nil (by simp) hempty)
  have hfirst : joinWith "," ((('\uFEFF' :: t) :: more).map writeField) =
      '\uFEFF' :: joinWith "," ((t :: more).map writeField) := by
    rw [List.map_cons, hfield, joinWith_cons_cons, List.map_cons]
  simp only [writeRow, hfirst, List.isEmpty_iff, hline, if_false, List.cons_append, reduceCtorEq]

/-- Dropping the mark leaves the header a header. -/
theorem exists_dropMark_writeRow (header : Header) (rest : Bytes) : ∃ titles : List Text, titles ≠ [] ∧
    dropMark (encode (writeRow header.titles) ++ rest) = encode (writeRow titles) ++ rest := by
  obtain ⟨c, u, hline⟩ : ∃ c u, writeRow header.titles = c :: u := List.exists_cons_of_ne_nil (by simp [writeRow])
  rw [hline, encode_cons, List.append_assoc, dropMark_encodeChar_append]
  by_cases hc : c = '\uFEFF'
  · subst hc
    obtain ⟨t, more, htitles, ht⟩ := exists_title_of_mark hline
    have hne : t :: more ≠ [[]] := fun hempty => header.unmarked (by rw [htitles]; cases hempty; rfl)
    rw [htitles, writeRow_mark ht hne] at hline
    refine ⟨t :: more, by simp, ?_⟩
    rw [if_pos rfl, (List.cons.inj hline).2]
  · exact ⟨header.titles, header.nonempty, by rw [if_neg hc, hline, encode_cons, List.append_assoc]⟩

/-- The rows behind the header, line by line. -/
theorem read_file (width : Nat) (header : Header) (lines : List Line) :
    read width (file header lines) = lines.filterMap (Line.read? width) := by
  obtain ⟨titles, htitles, hmark⟩ := exists_dropMark_writeRow header (lines.flatMap Line.encode)
  rw [read, rows, file, hmark, run_writeRow htitles, List.drop_one, List.tail_cons]
  exact filterMap_run_lines width lines

end EndpointAtlas.Csv
