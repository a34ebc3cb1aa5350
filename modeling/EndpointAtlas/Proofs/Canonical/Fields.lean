import EndpointAtlas.Proofs.Block.Line
import EndpointAtlas.Proofs.Canonical.Lines

/-! What is found in the text of a canonical declaration: its title, its headers and its route. Each pattern
    is met first where the declaration has it, though the texts in it may look like any of the patterns. -/

namespace EndpointAtlas.Canonical
open Text

namespace Declaration
variable (d : Declaration)

/-- The text of a declaration without the blanks around it. -/
def text : Text := d.titleContent ++ onNewLines (d.headerLines ++ d.paramsLines ++ d.handlerLines)

theorem endsUnblank_text : EndsUnblank d.text := by
  have hend : EndsUnblank ("end" : Text) := ⟨"en", 'd', rfl, rfl⟩
  have hsplit : d.text = (d.titleContent ++ onNewLines (d.headerLines ++ d.paramsLines ++ d.handlerLines.dropLast) ++
      '\n' :: List.replicate (d.indent 9) ' ') ++ "end" := by
    unfold text handlerLines
    simp only [onNewLines_append, onNewLines_cons, onNewLines_nil, indented, List.append_assoc, List.cons_append,
      List.append_nil, List.dropLast]
  rw [hsplit]
  exact hend.append _

theorem trim_joinWith_lines : trim (joinWith "\n" d.lines) = d.text := by
  have hfirst : ∀ c ∈ d.text.head?, isBlank c = false := by
    unfold text titleContent
    exact head?_cons_eq_false isBlank rfl _
  have hlines : joinWith "\n" d.lines = List.replicate (d.indent 0) ' ' ++ d.text := by
    rw [lines, List.cons_append, List.cons_append, joinWith_cons_eq, indented, List.append_assoc]
    rfl
  rw [hlines, trim_append_of_isBlank fun _ => isBlank_of_mem_replicate]
  exact trim_of_endsUnblank hfirst d.endsUnblank_text

/-! ### Title -/

theorem titleContent_eq : d.titleContent = "desc " ++ '\'' :: (d.title.text ++ '\'' :: ", \x7b") := by
  unfold titleContent
  rw [List.append_assoc]
  rfl

theorem first?_readTitle : first? Endpoint.readTitle? d.text = some d.title.text := by
  have hquoted := anyQuoted?_append (d.title.not_mem rfl)
    (", \x7b" ++ onNewLines (d.headerLines ++ d.paramsLines ++ d.handlerLines))
  have hread : Endpoint.readTitle? none d.text =
      some (d.title.text, ", \x7b" ++ onNewLines (d.headerLines ++ d.paramsLines ++ d.handlerLines)) := by
    rw [text, titleContent_eq, List.append_assoc, List.cons_append, List.append_assoc]
    exact hquoted
  rw [first?, find?_of_eq_some hread]
  rfl

end Declaration

/-! ### Headers -/

/-- No quote of either kind stands in `t`. -/
def IsUnquoted (t : Text) : Prop := '\'' ∉ t ∧ '"' ∉ t

instance : DecidablePred IsUnquoted := fun _ => inferInstanceAs (Decidable (_ ∧ _))

theorem IsUnquoted.append {s t : Text} (hs : IsUnquoted s) (ht : IsUnquoted t) : IsUnquoted (s ++ t) :=
  ⟨List.not_mem_append hs.1 ht.1, List.not_mem_append hs.2 ht.2⟩

theorem IsOver.isUnquoted {a t : Text} (h : IsOver a t) (ha : IsUnquoted a) : IsUnquoted t :=
  ⟨h.not_mem rfl rfl ha.1, h.not_mem rfl rfl ha.2⟩

/-- The end of a line, and the indentation of the next. -/
theorem isUnquoted_newLine (n : Nat) : IsUnquoted ('\n' :: List.replicate n ' ') := by
  have hover : IsOver "\n" ('\n' :: List.replicate n ' ') :=
    IsOver.append (s := ['\n']) (by decide) (isOver_replicate_space n)
  exact hover.isUnquoted (by decide)

theorem misses_readHeader_of_isUnquoted {before : Option Char} {s : Text} (h : IsUnquoted s) (t : Text) :
    Misses Endpoint.readHeader? before s t := by
  refine misses_of_forall fun c hc b u => ?_
  have hsingle : c ≠ '\'' := fun heq => h.1 (heq ▸ hc)
  have hdouble : c ≠ '"' := fun heq => h.2 (heq ▸ hc)
  unfold Endpoint.readHeader?
  rw [anyQuoted?_cons_of_ne hsingle hdouble]
  rfl

/-- A quoted text that no arrow follows is no header. -/
theorem readHeader?_of_no_arrow {s t : Text} (hs : '\'' ∉ s) (ht : dropLead? "=>" (trimStart t) = none)
    (before : Option Char) : Endpoint.readHeader? before ('\'' :: (s ++ '\'' :: t)) = none := by
  unfold Endpoint.readHeader?
  rw [anyQuoted?_append hs]
  simp only [Option.bind_eq_bind, Option.bind_some, nonempty?]
  split
  · rfl
  · simp only [Option.bind_some, ht]
    rfl

theorem misses_readHeader_of_no_arrow {before : Option Char} {s t : Text} (hs : IsUnquoted s)
    (ht : dropLead? "=>" (trimStart t) = none) : Misses Endpoint.readHeader? before ('\'' :: s) ('\'' :: t) :=
  ⟨readHeader?_of_no_arrow hs.1 ht before, misses_readHeader_of_isUnquoted hs _⟩

theorem Phrase.dropLead?_arrow (p : Phrase) (t : Text) : dropLead? "=>" (trimStart (p.text ++ t)) = none := by
  obtain ⟨c, s, hcs⟩ := List.exists_cons_of_ne_nil p.ne_nil
  have hfirst : isBlank c = false := p.first c (by rw [hcs]; rfl)
  have harrow : '=' ≠ c := by
    rintro rfl
    exact p.not_mem (c := '=') rfl (by rw [hcs]; exact List.mem_cons_self)
  rw [hcs, List.cons_append, trimStart_cons_of_not_isBlank hfirst]
  exact if_neg harrow

theorem Phrase.isUnquoted (p : Phrase) : IsUnquoted p.text := ⟨p.not_mem rfl, p.not_mem rfl⟩

theorem readHeader?_of_arrow {s : Text} (hs : '\'' ∉ s) (hne : s ≠ []) (t : Text) (before : Option Char) :
    Endpoint.readHeader? before ('\'' :: (s ++ '\'' :: (" => \x7b" ++ t))) =
      (dropLead? "description:" (trimStart t)).map (s, ·) := by
  have hnonempty : nonempty? (s, " => \x7b" ++ t) = some (s, " => \x7b" ++ t) := by
    obtain ⟨c, s, rfl⟩ := List.exists_cons_of_ne_nil hne
    rfl
  have harrow : dropLead? "=>" (trimStart (" => \x7b" ++ t)) = some (" \x7b" ++ t) := rfl
  have hbrace : dropLead? "\x7b" (trimStart (" \x7b" ++ t)) = some t := rfl
  unfold Endpoint.readHeader?
  rw [anyQuoted?_append hs]
  simp only [Option.bind_eq_bind, Option.bind_some, hnonempty, harrow, hbrace]
  cases dropLead? "description:" (trimStart t) <;> rfl

namespace Header
variable (h : Header)

/-- What stands before the name of a header. -/
def gap : Text := '\n' :: List.replicate (h.indent 0) ' '

/-- A header up to its description. -/
def lead : Text :=
  '\'' :: (h.name.text ++ '\'' :: (" => \x7b" ++ '\n' :: (List.replicate (h.indent 1) ' ' ++ "description:")))

/-- The description of a header up to the quote behind it. -/
def described : Text := ' ' :: '\'' :: h.description.text

/-- What stands behind that quote. -/
def close : Text := '\n' :: (List.replicate (h.indent 2) ' ' ++ "\x7d,")

theorem onNewLines_lines : onNewLines h.lines = h.gap ++ (h.lead ++ (h.described ++ '\'' :: h.close)) := by
  unfold lines nameContent descriptionContent gap lead described close
  simp [onNewLines, indented]

theorem isUnquoted_gap : IsUnquoted h.gap := isUnquoted_newLine _

theorem isUnquoted_close : IsUnquoted h.close := (isUnquoted_newLine _).append (t := "\x7d,") (by decide)

theorem misses_gap {gap : Text} (hgap : IsUnquoted gap) (before : Option Char) (t : Text) :
    Misses Endpoint.readHeader? before ('\'' :: (gap ++ h.gap)) (h.lead ++ t) := by
  rw [lead, List.cons_append, List.append_assoc]
  exact misses_readHeader_of_no_arrow (hgap.append h.isUnquoted_gap) (h.name.dropLead?_arrow _)

theorem misses_described (before : Option Char) (t : Text) :
    Misses Endpoint.readHeader? before h.described ('\'' :: (h.close ++ t)) := by
  have harrow : dropLead? "=>" (trimStart (h.close ++ t)) = none := by
    rw [close, List.cons_append, List.append_assoc, trimStart_cons_of_isBlank rfl, trimStart_replicate_append]
    rfl
  exact misses_append (s := [' ']) (misses_readHeader_of_isUnquoted (by decide) _)
    (misses_readHeader_of_no_arrow h.description.isUnquoted harrow)

theorem readHeader_lead (before : Option Char) (t : Text) :
    Endpoint.readHeader? before (h.lead ++ t) = some (h.name.text, t) := by
  have hlead : h.lead ++ t = '\'' :: (h.name.text ++ '\'' ::
      (" => \x7b" ++ '\n' :: (List.replicate (h.indent 1) ' ' ++ ("description:" ++ t)))) := by
    simp only [lead, List.cons_append, List.append_assoc]
  have hbody : trimStart ('\n' :: (List.replicate (h.indent 1) ' ' ++ ("description:" ++ t))) =
      "description:" ++ t := by
    rw [trimStart_cons_of_isBlank rfl, trimStart_replicate_append]
    rfl
  have hdescription : dropLead? "description:" ("description:" ++ t) = some t := dropLead?_eq_some_iff.mpr rfl
  rw [hlead, readHeader?_of_arrow (h.name.not_mem rfl) h.name.ne_nil, hbody, hdescription]
  rfl

end Header

/-- The search goes on behind the quote that ends a text. No quote stands in `gap` and `rest`, so that what
    is met from there on are the headers. -/
theorem findAll_readHeader (hs : List Header) {gap rest : Text} (hgap : IsUnquoted gap) (hrest : IsUnquoted rest)
    (before : Option Char) : findAll Endpoint.readHeader? before 0 ('\'' :: (gap ++ (onNewLines (hs.flatMap Header.lines) ++
      rest))) = hs.map (·.name.text) := by
  induction hs generalizing gap before with
  | nil =>
    have hunquoted : IsUnquoted (gap ++ rest) := hgap.append hrest
    have hquote : Endpoint.readHeader? before ('\'' :: (gap ++ rest)) = none := by
      unfold Endpoint.readHeader?
      rw [anyQuoted?_of_not_mem hunquoted.1]
      rfl
    have hmisses : Misses Endpoint.readHeader? before ('\'' :: (gap ++ rest)) [] :=
      ⟨by rwa [List.append_nil], misses_readHeader_of_isUnquoted hunquoted _⟩
    have hfind := findAll_append_of_misses hmisses
    rw [List.append_nil] at hfind
    exact hfind
  | cons h hs ih =>
    have hsplit : '\'' :: (gap ++ (onNewLines ((h :: hs).flatMap Header.lines) ++ rest)) =
        '\'' :: (gap ++ h.gap) ++ (h.lead ++ (h.described ++
          '\'' :: (h.close ++ (onNewLines (hs.flatMap Header.lines) ++ rest)))) := by
      rw [List.flatMap_cons, onNewLines_append, h.onNewLines_lines]
      simp only [List.cons_append, List.append_assoc]
    have hlead : h.lead ≠ [] := List.cons_ne_nil _ _
    rw [hsplit, findAll_append_of_misses (h.misses_gap hgap _ _),
      findAll_append_of_eq_some (h.readHeader_lead _ _) hlead,
      findAll_append_of_misses (h.misses_described _ _), ih h.isUnquoted_close]
    rfl

namespace Declaration
variable (d : Declaration)

/-- What stands between the title and the first header. -/
def titleGap : Text := ", \x7b" ++ '\n' :: (List.replicate (d.indent 1) ' ' ++ "headers: \x7b")

/-- The lines behind the last header. -/
def laterLines : List Text :=
  [indented (d.indent 2) "\x7d", indented (d.indent 3) "\x7d"] ++ (d.paramsLines ++ d.handlerLines)

theorem isUnquoted_titleGap : IsUnquoted d.titleGap :=
  IsUnquoted.append (by decide) ((isUnquoted_newLine _).append (t := "headers: \x7b") (by decide))

theorem isUnquoted_laterLines : IsUnquoted (onNewLines d.laterLines) := by
  have hclose : ∀ n, IsOver ",:=.()\x7d" (indented n "\x7d") := fun _ => .indented _ (by decide)
  have hclosing : ∀ l ∈ [indented (d.indent 2) "\x7d", indented (d.indent 3) "\x7d"], IsOver ",:=.()\x7d" l :=
    List.forall_mem_cons.mpr ⟨hclose _, List.forall_mem_cons.mpr ⟨hclose _, fun _ hl => by cases hl⟩⟩
  have hparams : ∀ l ∈ d.paramsLines, IsOver ",:=.()\x7d" l := fun l hl => (d.isOver_paramsLines l hl).mono (by decide)
  have hhandler : ∀ l ∈ d.handlerLines, IsOver ",:=.()\x7d" l := fun l hl =>
    (d.isOver_handlerLines l hl).mono (by decide)
  have hlines : ∀ l ∈ d.laterLines, IsOver ",:=.()\x7d" l :=
    List.forall_mem_append.mpr ⟨hclosing, List.forall_mem_append.mpr ⟨hparams, hhandler⟩⟩
  exact (IsOver.onNewLines hlines).isUnquoted (by decide)

theorem all_readHeader : Text.all Endpoint.readHeader? d.text = d.headers.map (·.name.text) := by
  have htext : d.text = "desc " ++ ('\'' :: d.title.text ++ '\'' :: (d.titleGap ++
      (onNewLines (d.headers.flatMap Header.lines) ++ onNewLines d.laterLines))) := by
    unfold text headerLines titleGap laterLines
    rw [titleContent_eq]
    simp only [onNewLines_append, onNewLines_cons, indented, List.cons_append, List.append_assoc]
  have htitle : dropLead? "=>" (trimStart (d.titleGap ++
      (onNewLines (d.headers.flatMap Header.lines) ++ onNewLines d.laterLines))) = none := rfl
  rw [Text.all, htext, findAll_append_of_misses (misses_readHeader_of_isUnquoted (by decide) _),
    findAll_append_of_misses (misses_readHeader_of_no_arrow d.title.isUnquoted htitle),
    findAll_readHeader _ d.isUnquoted_titleGap d.isUnquoted_laterLines]

end Declaration

/-! ### Route -/

theorem word?_append_of_isIdentChar {w t : Text} (hne : w ≠ []) (hw : ∀ c ∈ w, isIdentChar c = true)
    (ht : endsWord t = true) : word? (w ++ t) = some (w, t) :=
  Text.word?_append hne (fun c hc => isWordChar_of_isIdentChar (hw c hc)) ht

theorem Name.word?_append (n : Name) {t : Text} (ht : endsWord t = true) : word? (n.text ++ t) = some (n.text, t) :=
  word?_append_of_isIdentChar n.ne_nil n.chars ht

/-- A line that begins with no routing verb, whatever follows it. -/
structure IsRouteless (l : Text) : Prop where
  ne_nil : l ≠ []
  no_break : '\n' ∉ l
  no_verb : ∀ t, HttpMethod.read? (trimStart (l ++ t)) = none

theorem isRouteless_indented {a t : Text} (n : Nat) (hne : t ≠ []) (hover : IsOver a t) (hbreak : '\n' ∉ a)
    (hverb : ∀ u, HttpMethod.read? (trimStart (t ++ u)) = none) : IsRouteless (indented n t) where
  ne_nil := List.append_ne_nil_of_right_ne_nil _ hne
  no_break := (hover.indented n).not_mem rfl rfl hbreak
  no_verb := fun u => by
    rw [indented, List.append_assoc, trimStart_replicate_append]
    exact hverb u

theorem readRoute?_of_ne_newline {c : Char} (hc : c ≠ '\n') (t : Text) : Endpoint.readRoute? (some c) t = none := by
  have hstart : (some c).all (· == '\n') = false := by simpa using hc
  unfold Endpoint.readRoute?
  rw [hstart]
  rfl

theorem readRoute?_of_no_verb {t : Text} (h : HttpMethod.read? (trimStart t) = none) (before : Option Char) :
    Endpoint.readRoute? before t = none := by
  unfold Endpoint.readRoute?
  split
  · rfl
  · rw [h]
    rfl

theorem misses_readRoute_line {l : Text} (h : IsRouteless l) (before : Option Char) (t : Text) :
    Misses Endpoint.readRoute? before l t := by
  -- A route begins where a line begins, and that is before the first character only.
  refine misses_of_split fun u c v hsplit => ?_
  rcases List.eq_nil_or_concat u with rfl | ⟨u, e, rfl⟩
  · have hverb := h.no_verb t
    rw [hsplit] at hverb
    exact readRoute?_of_no_verb hverb _
  · have he : e ≠ '\n' := by
      rintro rfl
      exact h.no_break (by simp [hsplit])
    rw [List.concat_eq_append, List.getLast?_concat]
    exact readRoute?_of_ne_newline he _

/-- No line of several lines begins with a verb. -/
theorem misses_readRoute_lines {l : Text} {ls : List Text} (h : IsRouteless l) (hs : ∀ m ∈ ls, IsRouteless m)
    (before : Option Char) (t : Text) : Misses Endpoint.readRoute? before (l ++ (onNewLines ls ++ ['\n'])) t := by
  have hbreak : ∀ (l : Text) (b : Option Char) (u : Text), IsRouteless l →
      Endpoint.readRoute? (l.getLast?.or b) u = none := by
    intro l b u hl
    rcases List.eq_nil_or_concat l with rfl | ⟨l, c, rfl⟩
    · exact absurd rfl hl.ne_nil
    · have hc : c ≠ '\n' := by
        rintro rfl
        exact hl.no_break (by simp)
      rw [List.concat_eq_append, List.getLast?_concat]
      exact readRoute?_of_ne_newline hc u
  induction ls generalizing l before with
  | nil => exact misses_append (misses_readRoute_line h _ _) ⟨hbreak l _ _ h, trivial⟩
  | cons m ls ih =>
    have hm := ih (hs m List.mem_cons_self) (fun k hk => hs k (List.mem_cons_of_mem _ hk)) (some '\n')
    rw [← List.append_assoc] at hm
    exact misses_append (misses_readRoute_line h _ _) ⟨hbreak l _ _ h, hm⟩

theorem Header.isRouteless (h : Header) : ∀ l ∈ h.lines, IsRouteless l :=
  h.forall_mem_lines
    (fun _ => isRouteless_indented _ (List.cons_ne_nil _ _) h.isOver_nameContent (by decide) fun _ => rfl)
    (fun _ => isRouteless_indented _ (List.cons_ne_nil _ _) h.isOver_descriptionContent (by decide) fun _ => rfl)
    fun _ => isRouteless_indented _ (List.cons_ne_nil _ _) (a := "\x7d,") (by decide) (by decide) fun _ => rfl

theorem Param.isRouteless (p : Param) : IsRouteless p.line := by
  have hverb : ∀ u, HttpMethod.read? (trimStart (p.content ++ u)) = none := by
    unfold content
    rcases p.keyword_cases with h | h
    · rw [h]
      exact fun _ => rfl
    · rw [h]
      exact fun _ => rfl
  exact isRouteless_indented _ p.content_ne_nil p.isOver_content (by decide) hverb

namespace Declaration
variable (d : Declaration)

theorem isRouteless_titleContent : IsRouteless d.titleContent :=
  isRouteless_indented 0 (List.cons_ne_nil _ _) d.isOver_titleContent (by decide) fun _ => rfl

theorem isRouteless_headerLines : ∀ l ∈ d.headerLines, IsRouteless l :=
  d.forall_mem_headerLines
    (fun _ => isRouteless_indented _ (List.cons_ne_nil _ _) (a := ":\x7b") (by decide) (by decide) fun _ => rfl)
    Header.isRouteless
    fun _ => isRouteless_indented _ (List.cons_ne_nil _ _) (a := "\x7d") (by decide) (by decide) fun _ => rfl

theorem isRouteless_paramsLines : ∀ l ∈ d.paramsLines, IsRouteless l :=
  d.forall_mem_paramsLines
    (fun _ => isRouteless_indented _ (List.cons_ne_nil _ _) (a := []) (by decide) (by decide) fun _ => rfl)
    Param.isRouteless
    fun _ => isRouteless_indented _ (List.cons_ne_nil _ _) (a := []) (by decide) (by decide) fun _ => rfl

theorem readRoute?_verb (n : Nat) (t : Text) :
    Endpoint.readRoute? (some '\n') (indented n d.verbContent ++ t) =
      some ((d.method, d.route.text), " do" ++ t) := by
  have hverb : trimStart (indented n d.verbContent ++ t) = d.method.verb ++ (" :" ++ (d.route.text ++ (" do" ++ t))) := by
    rw [indented, List.append_assoc, trimStart_replicate_append]
    unfold verbContent HttpMethod.verb
    simp only [List.append_assoc]
    cases d.method <;> rfl
  have hread : ∀ u, HttpMethod.read? (d.method.verb ++ u) = some (d.method, u) := fun u => by
    cases d.method <;> rfl
  have hname : word? (d.route.text ++ (" do" ++ t)) = some (d.route.text, " do" ++ t) :=
    d.route.word?_append rfl
  unfold Endpoint.readRoute?
  rw [hverb, hread]
  show (word? (d.route.text ++ (" do" ++ t))).bind (fun found => some ((d.method, found.1), found.2)) = _
  rw [hname]
  rfl

theorem first?_readRoute : first? Endpoint.readRoute? d.text = some (d.method, d.route.text) := by
  have hlines : ∀ l ∈ d.headerLines ++ d.paramsLines, IsRouteless l :=
    List.forall_mem_append.mpr ⟨d.isRouteless_headerLines, d.isRouteless_paramsLines⟩
  have htext : d.text = (d.titleContent ++ (onNewLines (d.headerLines ++ d.paramsLines) ++ ['\n'])) ++
      (indented (d.indent 6) d.verbContent ++ onNewLines d.handlerLines.tail) := by
    unfold text handlerLines
    simp only [onNewLines_append, onNewLines_cons, List.append_assoc, List.tail_cons]
    rfl
  have hlast : (d.titleContent ++ (onNewLines (d.headerLines ++ d.paramsLines) ++ ['\n'])).getLast? = some '\n' := by
    rw [← List.append_assoc, List.getLast?_concat]
  have hroute := d.readRoute?_verb (d.indent 6) (onNewLines d.handlerLines.tail)
  rw [← hlast] at hroute
  rw [htext]
  exact first?_append_of_eq_some (misses_readRoute_lines d.isRouteless_titleContent hlines _ _) hroute

end Declaration

end EndpointAtlas.Canonical
