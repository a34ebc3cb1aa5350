import EndpointAtlas.Proofs.Canonical.Fields
import EndpointAtlas.Proofs.Endpoint.Parameters

/-! The block of parameters of a canonical declaration. It is found at its opening words and its own `end`,
    and each of its lines is read as the parameter that it declares. -/

namespace EndpointAtlas.Canonical
open Text

/-! ### The block -/

theorem readParamsOpening?_eq_some {before : Option Char} {t : Text} {x : Unit × Text}
    (h : Endpoint.readParamsOpening? before t = some x) :
    startsWord before = true ∧ ∃ rest, t = "params" ++ rest ∧ endsWord rest = true := by
  obtain ⟨⟨⟩, rest⟩ := x
  obtain ⟨hstart, -, blanks, rfl, hne, hblank⟩ := Endpoint.readParamsOpening?_eq_some_iff.mp h
  obtain ⟨c, blanks, rfl⟩ := List.exists_cons_of_ne_nil hne
  refine ⟨hstart, _, rfl, ?_⟩
  rw [List.cons_append, endsWord, List.head?_cons, Option.any_some, isWordChar_of_isBlank (hblank c List.mem_cons_self)]
  rfl

theorem byteLength_replicate_space (n : Nat) : byteLength (List.replicate n ' ') = n := by
  induction n with
  | zero => rfl
  | succ n ih =>
    rw [List.replicate_succ, byteLength, ih]
    exact Nat.add_comm 1 n

theorem words_indented (n : Nat) (t : Text) : words (indented n t) = words t := words_replicate_append rfl n t

theorem Phrase.not_mem_words_quoted (p : Phrase) {s t : Text} (hs : ("params" : Text) ∉ words s)
    (ht : ("params" : Text) ∉ words t) : ("params" : Text) ∉ words (s ++ '\'' :: (p.text ++ '\'' :: t)) := by
  rw [words_append_cons rfl, words_append_cons rfl]
  exact List.not_mem_append hs (List.not_mem_append p.no_params ht)

theorem Header.not_mem_words (h : Header) : ∀ l ∈ h.lines, ("params" : Text) ∉ words l := by
  have hname : h.nameContent = [] ++ '\'' :: (h.name.text ++ '\'' :: " => \x7b") := by
    unfold nameContent
    rw [List.append_assoc]
    rfl
  have hdescription : h.descriptionContent = "description: " ++ '\'' :: (h.description.text ++ '\'' :: []) := by
    unfold descriptionContent
    rw [List.append_assoc]
    rfl
  refine h.forall_mem_lines (fun n => ?_) (fun n => ?_) fun n => ?_
  · rw [words_indented, hname]
    exact h.name.not_mem_words_quoted (by decide) (by decide)
  · rw [words_indented, hdescription]
    exact h.description.not_mem_words_quoted (by decide) (by decide)
  · rw [words_indented]
    decide

namespace Declaration
variable (d : Declaration)

/-- What stands before the block of parameters. -/
def paramsLead : Text := d.titleContent ++ onNewLines (d.headerLines ++ [indented (d.indent 4) []])

/-- The lines of the parameters, and what stands before the `end` behind them. -/
def paramsBody : Text := onNewLines (d.params.map Param.line) ++ '\n' :: List.replicate (d.indent 5) ' '

theorem text_eq_append_params : d.text = d.paramsLead ++
    ("params do" ++ (d.paramsBody ++ ("end" ++ onNewLines d.handlerLines))) := by
  unfold text paramsLead paramsLines paramsBody
  simp only [onNewLines_append, onNewLines_cons, indented, List.cons_append, List.append_assoc, List.nil_append]
  rfl

theorem words_titleContent : ("params" : Text) ∉ words d.titleContent := by
  rw [titleContent_eq]
  exact d.title.not_mem_words_quoted (by decide) (by decide)

theorem words_headerLines : ∀ l ∈ d.headerLines, ("params" : Text) ∉ words l := by
  refine d.forall_mem_headerLines (fun n => ?_) Header.not_mem_words fun n => ?_
  · rw [words_indented]
    decide
  · rw [words_indented]
    decide

theorem words_paramsLead : ("params" : Text) ∉ words d.paramsLead := by
  have hblank : ("params" : Text) ∉ words (indented (d.indent 4) []) := by
    rw [words_indented]
    decide
  rw [paramsLead, words_append_onNewLines, List.flatMap_append, List.flatMap_singleton]
  refine List.not_mem_append d.words_titleContent (List.not_mem_append ?_ hblank)
  rw [List.mem_flatMap]
  rintro ⟨l, hl, hmem⟩
  exact d.words_headerLines l hl hmem

theorem isWordChar_getLast_paramsLead : ∀ c ∈ d.paramsLead.getLast?, isWordChar c = false := by
  have hend : d.paramsLead =
      (d.titleContent ++ onNewLines d.headerLines) ++ '\n' :: List.replicate (d.indent 4) ' ' := by
    unfold paramsLead
    simp only [onNewLines_append, onNewLines_cons, onNewLines_nil, indented, List.append_assoc, List.append_nil]
  intro c hc
  rw [hend] at hc
  rcases getLast?_append_indent hc with rfl | rfl
  · rfl
  · rfl

/-- The block of parameters opens at its own words. -/
theorem find?_readParamsOpening : find? Endpoint.readParamsOpening? none d.text =
    some ((), d.paramsBody ++ ("end" ++ onNewLines d.handlerLines)) := by
  -- Quoted texts may hold `params` within a longer word, so words are compared and not characters.
  have hmisses : ∀ t, Misses Endpoint.readParamsOpening? none d.paramsLead t := fun t =>
    misses_of_not_mem_words (fun _ _ _ => readParamsOpening?_eq_some) (by decide) (List.all_eq_true.mp rfl)
      d.isWordChar_getLast_paramsLead d.words_paramsLead
  have hstart : startsWord (d.paramsLead.getLast?.or none) = true := by
    have hlast := d.isWordChar_getLast_paramsLead
    cases h : d.paramsLead.getLast? with
    | none => rfl
    | some c => simp [startsWord, hlast c h]
  have hend : endsWord (d.paramsBody ++ ("end" ++ onNewLines d.handlerLines)) = true := by
    unfold paramsBody
    cases d.params <;> rfl
  rw [text_eq_append_params]
  exact find?_append_of_eq_some (hmisses _)
    (Endpoint.readParamsOpening?_eq_some_iff.mpr ⟨hstart, hend, " ", rfl, by decide, List.all_eq_true.mp rfl⟩)

/-- The first `end` behind the parameters is their own. -/
theorem matchingClose?_params : Keyword.matchingClose? d.text (byteLength (d.paramsLead ++ "params do")) =
    some (byteLength (d.paramsLead ++ "params do") + byteLength d.paramsBody) := by
  have hquiet : ∀ l ∈ d.params.map Param.line, Keyword.IsQuiet none l := by
    intro l hl
    obtain ⟨p, -, rfl⟩ := List.mem_map.mp hl
    exact p.isQuiet_line
  have htext : d.text = (d.paramsLead ++ "params do") ++ (onNewLines (d.params.map Param.line) ++
      '\n' :: (List.replicate (d.indent 5) ' ' ++ ("end" ++ onNewLines d.handlerLines))) := by
    rw [text_eq_append_params, paramsBody]
    simp only [List.append_assoc, List.cons_append]
  have hend : ∀ o t, Keyword.scanFrom o none false ("end" ++ '\n' :: t) =
      ⟨o, .closer⟩ :: Keyword.scanFrom (o + 3) (some 'd') false ('\n' :: t) := fun o t =>
    Keyword.scanFrom_word (by decide) (List.all_eq_true.mp rfl) (head?_cons_eq_false isIdentChar rfl t)
  have hsize : byteLength ((d.paramsLead ++ "params do") ++ onNewLines (d.params.map Param.line)) + 1 + d.indent 5 =
      byteLength (d.paramsLead ++ "params do") + byteLength d.paramsBody := by
    have hbreak : byteLength ('\n' :: List.replicate (d.indent 5) ' ') = 1 + d.indent 5 := by
      rw [byteLength, byteLength_replicate_space]
      rfl
    rw [paramsBody, byteLength_append, byteLength_append (onNewLines _), hbreak]
    omega
  rw [htext, Keyword.matchingClose?_append_quiet hquiet, Keyword.scanFrom_replicate_space, hsize,
    show d.handlerLines = _ :: d.handlerLines.tail from rfl, onNewLines_cons, hend]
  rfl

theorem paramsAt_text : Endpoint.ParamsAt d.text (d.paramsLead ++ "params do") d.paramsBody
    ("end" ++ onNewLines d.handlerLines) where
  block_eq := by rw [text_eq_append_params, List.append_assoc]
  opening := d.find?_readParamsOpening
  closing := by rw [d.matchingClose?_params, byteLength_append _ d.paramsBody]

theorem paramsBody?_text : Endpoint.paramsBody? d.text = some (trim d.paramsBody) := d.paramsAt_text.paramsBody?_eq

end Declaration

/-! ### The parameters -/

theorem Name.endsUnblank (n : Name) : EndsUnblank n.text := by
  rcases List.eq_nil_or_concat n.text with h | ⟨s, c, h⟩
  · exact absurd h n.ne_nil
  · exact ⟨s, c, by rw [h, List.concat_eq_append], isBlank_of_isIdentChar (n.chars c (by simp [h]))⟩

namespace Param
variable (p : Param)

theorem endsUnblank_content : EndsUnblank p.content := p.type.endsUnblank.append _

theorem isBlank_head_content : ∀ c ∈ p.content.head?, isBlank c = false := by
  unfold content
  rcases p.keyword_cases with h | h
  · rw [h]
    exact head?_cons_eq_false isBlank rfl _
  · rw [h]
    exact head?_cons_eq_false isBlank rfl _

theorem trim_content : trim p.content = p.content :=
  trim_of_endsUnblank p.isBlank_head_content p.endsUnblank_content

theorem read?_content (before : Option Char) : Parameter.read? before p.content = some (p.parameter, []) := by
  have hkeyword : (Parameter.dropLeadFolded? "optional" p.content <|> Parameter.dropLeadFolded? "requires" p.content)
      >>= blanks? = some (":" ++ (p.name.text ++ (", type: " ++ p.type.text))) := by
    unfold content
    simp only [List.append_assoc]
    rcases p.keyword_cases with h | h
    · rw [h]
      rfl
    · rw [h]
      rfl
  have hname : word? (p.name.text ++ (", type: " ++ p.type.text)) = some (p.name.text, ", type: " ++ p.type.text) :=
    p.name.word?_append rfl
  have hcomma : dropLead? "," (", type: " ++ p.type.text) = some (" type: " ++ p.type.text) := rfl
  have htype : Parameter.dropLeadFolded? "type:" (trimStart (" type: " ++ p.type.text)) = some (" " ++ p.type.text) := rfl
  have hspace : trimStart (" " ++ p.type.text) = p.type.text := by
    obtain ⟨c, s, hcs⟩ := List.exists_cons_of_ne_nil p.type.ne_nil
    have hc : isBlank c = false := isBlank_of_isIdentChar (p.type.chars c (by simp [hcs]))
    rw [hcs]
    exact trimStart_cons_of_not_isBlank hc s
  have hword : word? p.type.text = some (p.type.text, []) := by
    have hread := p.type.word?_append (t := []) rfl
    rwa [List.append_nil] at hread
  unfold Parameter.read?
  rw [hkeyword]
  show (word? (p.name.text ++ (", type: " ++ p.type.text))).bind _ = _
  rw [hname]
  simp only [Option.bind_eq_bind, Option.bind_some, hcomma, htype, hspace, hword]
  rfl

theorem ofLine?_of_trim {l : Text} (h : trim l = p.content) : Parameter.ofLine? l = some p.parameter := by
  rw [Parameter.ofLine?, h, first?, find?_of_eq_some (p.read?_content none)]
  rfl

theorem ofLine?_content : Parameter.ofLine? p.content = some p.parameter := p.ofLine?_of_trim p.trim_content

theorem ofLine?_line : Parameter.ofLine? p.line = some p.parameter :=
  p.ofLine?_of_trim (by rw [line, trim_indented, p.trim_content])

theorem isPlainLine_content : IsPlainLine p.content := p.isOver_content.isPlainLine (by decide) (by decide)

theorem isPlainLine_line : IsPlainLine p.line := (p.isOver_content.indented _).isPlainLine (by decide) (by decide)

end Param

/-- An empty line at the end declares nothing. -/
theorem ofText_joinWith {ls : List Text} (h : ∀ l ∈ ls, IsPlainLine l) :
    Parameter.ofText (joinWith "\n" ls) = ls.filterMap Parameter.ofLine? := by
  have hempty : Parameter.ofLine? [] = none := rfl
  unfold Parameter.ofText
  rcases lines_joinWith h with hlines | hlines
  · rw [hlines]
  · conv =>
      rhs
      rw [hlines]
    rw [List.filterMap_append, List.filterMap_cons_none hempty]
    exact (List.append_nil _).symm

theorem filterMap_ofLine?_lines (ps : List Param) :
    (ps.map Param.line).filterMap Parameter.ofLine? = ps.map Param.parameter := by
  have hline : Parameter.ofLine? ∘ Param.line = some ∘ Param.parameter := funext fun p => p.ofLine?_line
  rw [List.filterMap_map, hline, List.filterMap_eq_map]

namespace Declaration
variable (d : Declaration)

theorem ofText_paramsBody : Parameter.ofText (trim d.paramsBody) = d.params.map Param.parameter := by
  have hbreak : ∀ n, ∀ c ∈ '\n' :: List.replicate n ' ', isBlank c = true := fun n =>
    List.forall_mem_cons.mpr ⟨rfl, fun _ => isBlank_of_mem_replicate⟩
  unfold paramsBody
  rw [trim_append_right_of_isBlank (hbreak _)]
  cases d.params with
  | nil => rfl
  | cons p ps =>
    have hends : EndsUnblank (p.content ++ onNewLines (ps.map Param.line)) := by
      refine p.endsUnblank_content.append_onNewLines fun l hl => ?_
      obtain ⟨q, -, rfl⟩ := List.mem_map.mp hl
      exact q.endsUnblank_content.append _
    have hplain : ∀ l ∈ p.content :: ps.map Param.line, IsPlainLine l := by
      refine List.forall_mem_cons.mpr ⟨p.isPlainLine_content, fun l hl => ?_⟩
      obtain ⟨q, -, rfl⟩ := List.mem_map.mp hl
      exact q.isPlainLine_line
    have hhead : ∀ c ∈ (p.content ++ onNewLines (ps.map Param.line)).head?, isBlank c = false := by
      intro c hc
      obtain ⟨e, s, hs⟩ := List.exists_cons_of_ne_nil p.content_ne_nil
      rw [hs, List.cons_append] at hc
      exact p.isBlank_head_content c (by rw [hs]; exact hc)
    have hsplit : onNewLines ((p :: ps).map Param.line) =
        ('\n' :: List.replicate p.indent ' ') ++ (p.content ++ onNewLines (ps.map Param.line)) := by
      rw [List.map_cons, onNewLines_cons, Param.line, indented]
      simp only [List.cons_append, List.append_assoc]
    rw [hsplit, trim_append_of_isBlank (hbreak _), trim_of_endsUnblank hhead hends, ← joinWith_cons_eq,
      ofText_joinWith hplain, List.filterMap_cons_some p.ofLine?_content, filterMap_ofLine?_lines, List.map_cons]

theorem payload_text : (Endpoint.paramsBody? d.text).map (Payload.ofText · (some d.method)) = some d.payload := by
  rw [paramsBody?_text, Option.map_some, Payload.ofText, ofText_paramsBody]
  rfl

end Declaration

end EndpointAtlas.Canonical
