import EndpointAtlas.Block.Definition
import EndpointAtlas.Proofs.Keyword.Scan
import EndpointAtlas.Proofs.Text.Find
import EndpointAtlas.Proofs.Text.Lines
import EndpointAtlas.Proofs.Text.Words
import Mathlib.Data.List.Basic

/-! The definition blocks of a text, told by its lines. A definition goes from the word `def` and a name to the first
    line behind them that holds nothing but `end`. Where the first `def` and name of a text have no such line behind
    them, no later ones have, so that a text is read from left to right and nothing has to be tried twice. -/

namespace EndpointAtlas.Definition
open Text

variable {before : Option Char} {t u v w rest : Text} {units : List Text}

/-! ### Lines that hold nothing but `end` -/

/-- The first line of a text. -/
def firstLine (t : Text) : Text := t.takeWhile (· != '\n')

/-- The first line of the text holds nothing but `end`. -/
def BeginsBareEnd (t : Text) : Prop := trim (firstLine t) = "end"

instance : DecidablePred BeginsBareEnd := fun t => inferInstanceAs (Decidable (trim (firstLine t) = "end"))

/-- A line behind the first one holds nothing but `end`. -/
def HasBareEnd (t : Text) : Prop := ∃ a v, t = a ++ '\n' :: v ∧ BeginsBareEnd v

theorem firstLine_append (h : '\n' ∉ w) (t : Text) : firstLine (w ++ t) = w ++ firstLine t :=
  List.takeWhile_append_of_pos fun _ hc => bne_iff_ne.mpr fun heq => h (heq ▸ hc)

theorem firstLine_append_newline (v t : Text) : firstLine (v ++ '\n' :: t) = firstLine v :=
  (Keyword.takeWhile_append_cons_of_neg (by decide) v t).1

theorem not_mem_firstLine (t : Text) : '\n' ∉ firstLine t := fun h =>
  bne_iff_ne.mp (List.mem_takeWhile_imp (p := (· != '\n')) h) rfl

theorem exists_firstLine (t : Text) : ∃ x, t = firstLine t ++ x ∧ (x = [] ∨ ∃ v, x = '\n' :: v) := by
  refine ⟨t.dropWhile (· != '\n'), List.takeWhile_append_dropWhile.symm, ?_⟩
  cases hx : t.dropWhile (· != '\n') with
  | nil => exact Or.inl rfl
  | cons c v =>
    have hc := List.head?_dropWhile_not (· != '\n') t
    rw [hx] at hc
    have hbreak : c = '\n' := by simpa using hc
    exact Or.inr ⟨v, by rw [hbreak]⟩

theorem beginsBareEnd_append_newline (v t : Text) : BeginsBareEnd (v ++ '\n' :: t) ↔ BeginsBareEnd v := by
  rw [BeginsBareEnd, firstLine_append_newline, BeginsBareEnd]

theorem HasBareEnd.cons (h : HasBareEnd t) (c : Char) : HasBareEnd (c :: t) := by
  obtain ⟨a, v, rfl, hend⟩ := h
  exact ⟨c :: a, v, rfl, hend⟩

theorem HasBareEnd.append_left (h : HasBareEnd t) (s : Text) : HasBareEnd (s ++ t) := by
  obtain ⟨a, v, rfl, hend⟩ := h
  exact ⟨s ++ a, v, by rw [List.append_assoc], hend⟩

theorem hasBareEnd_newline {lead : Text} (hlead : EndsLine lead) (h : BeginsBareEnd t) :
    HasBareEnd ('\n' :: (lead ++ t)) := by
  rcases hlead with rfl | hlast
  · exact ⟨[], t, rfl, h⟩
  · rw [endsIn, beq_iff_eq, List.getLast?_eq_some_iff] at hlast
    obtain ⟨lead, rfl⟩ := hlast
    exact ⟨'\n' :: lead, t, by simp, h⟩

/-- The first of the lines that hold nothing but `end`. -/
theorem HasBareEnd.exists_first (h : HasBareEnd t) :
    ∃ inside v, t = inside ++ '\n' :: v ∧ ¬ HasBareEnd inside ∧ BeginsBareEnd v := by
  induction t with
  | nil =>
    obtain ⟨a, v, hsplit, -⟩ := h
    simp at hsplit
  | cons c t ih =>
    by_cases hfirst : c = '\n' ∧ BeginsBareEnd t
    · obtain ⟨rfl, hend⟩ := hfirst
      refine ⟨[], t, rfl, ?_, hend⟩
      rintro ⟨a, v, hsplit, -⟩
      simp at hsplit
    · have hlater : HasBareEnd t := by
        obtain ⟨_ | ⟨d, a⟩, v, hsplit, hend⟩ := h
        · obtain ⟨rfl, rfl⟩ := List.cons.inj hsplit
          exact absurd ⟨rfl, hend⟩ hfirst
        · obtain ⟨-, rfl⟩ := List.cons.inj hsplit
          exact ⟨a, v, rfl, hend⟩
      obtain ⟨inside, v, rfl, hno, hend⟩ := ih hlater
      refine ⟨c :: inside, v, rfl, ?_, hend⟩
      rintro ⟨_ | ⟨d, a⟩, v', hsplit, hend'⟩
      · obtain ⟨rfl, rfl⟩ := List.cons.inj hsplit
        exact hfirst ⟨rfl, (beginsBareEnd_append_newline _ v).mpr hend'⟩
      · obtain ⟨-, rfl⟩ := List.cons.inj hsplit
        exact hno ⟨a, v', rfl, hend'⟩

/-! ### Blanks behind an `end` -/

/-- What follows a definition and the blanks behind it: nothing, or the last line feed of the blanks. -/
def StopsBlanks (rest : Text) : Prop := rest = [] ∨ ∃ gap u, rest = '\n' :: (gap ++ u) ∧
  (∀ c ∈ gap, isBlank c = true ∧ c ≠ '\n') ∧ ∃ c ∈ u.head?, isBlank c = false

/-- Blanks that end a line. -/
theorem exists_stopsBlanks (h : ∀ c ∈ firstLine t, isBlank c = true) :
    ∃ tail rest, t = tail ++ rest ∧ (∀ c ∈ tail, isBlank c = true) ∧ StopsBlanks rest := by
  obtain ⟨lead, gap, hblanks, hlead, hgap⟩ := exists_last_line (t.takeWhile isBlank)
  have hblank : ∀ c ∈ lead ++ gap, isBlank c = true := fun c hc => List.mem_takeWhile_imp (hblanks ▸ hc)
  have hsplit : t = lead ++ (gap ++ trimStart t) := by
    rw [← List.append_assoc, ← hblanks, trimStart, List.takeWhile_append_dropWhile]
  cases hrest : trimStart t with
  | nil =>
    rw [hrest, List.append_nil] at hsplit
    exact ⟨t, [], (List.append_nil t).symm, hsplit ▸ hblank, Or.inl rfl⟩
  | cons c u =>
    have hhead : c ∈ (t.dropWhile isBlank).head? := congrArg List.head? hrest
    have hc : isBlank c = false := eq_false_of_mem_head?_dropWhile hhead
    rw [hrest] at hsplit
    -- The line that the blanks begin with ends before `c`, so that a line feed is among them.
    have hne : lead ≠ [] := by
      rintro rfl
      rw [List.nil_append] at hsplit
      have hmem : c ∈ firstLine t := by
        have hbreak : '\n' ∉ gap ++ [c] := by
          rw [List.mem_append, not_or, List.mem_singleton]
          refine ⟨hgap, ?_⟩
          rintro rfl
          cases hc
        rw [hsplit, ← List.singleton_append, ← List.append_assoc, firstLine_append hbreak]
        simp
      rw [h c hmem] at hc
      cases hc
    obtain ⟨tail, d, rfl⟩ := (List.eq_nil_or_concat' lead).resolve_left hne
    have hd : d = '\n' := by
      have hlast := hlead.resolve_left hne
      rw [endsIn, List.getLast?_concat, beq_iff_eq] at hlast
      exact Option.some.inj hlast
    refine ⟨tail, d :: (gap ++ c :: u), by rw [hsplit, List.append_assoc]; rfl, fun e he => ?_, ?_⟩
    · exact hblank e (List.mem_append_left gap (List.mem_append_left [d] he))
    · refine Or.inr ⟨gap, c :: u, by rw [hd], fun e he => ⟨hblank e (List.mem_append_right _ he), ?_⟩, c, rfl, hc⟩
      rintro rfl
      exact hgap he

theorem fromLastBreak?_eq_none (hgap : ∀ c ∈ w, isBlank c = true ∧ c ≠ '\n') (hu : ∃ c ∈ u.head?, isBlank c = false) :
    fromLastBreak? (w ++ u) = none := by
  induction w with
  | nil =>
    obtain ⟨c, hc, hblank⟩ := hu
    obtain ⟨u, rfl⟩ := List.head?_eq_some_iff.mp hc
    rw [List.nil_append, fromLastBreak?, hblank]
    rfl
  | cons c w ih =>
    rw [List.forall_mem_cons] at hgap
    rw [List.cons_append, fromLastBreak?, if_pos hgap.1.1, ih hgap.2]
    exact if_neg hgap.1.2

theorem fromLastBreak?_append {tail gap : Text} (htail : ∀ c ∈ tail, isBlank c = true)
    (hgap : ∀ c ∈ gap, isBlank c = true ∧ c ≠ '\n') (hu : ∃ c ∈ u.head?, isBlank c = false) :
    fromLastBreak? (tail ++ '\n' :: (gap ++ u)) = some ('\n' :: (gap ++ u)) := by
  induction tail with
  | nil =>
    rw [List.nil_append, fromLastBreak?, if_pos rfl, fromLastBreak?_eq_none hgap hu]
    rfl
  | cons c tail ih =>
    rw [List.forall_mem_cons] at htail
    rw [List.cons_append, fromLastBreak?, if_pos htail.1, ih htail.2]

theorem exists_newline_of_fromLastBreak? (h : fromLastBreak? t = some rest) : '\n' ∈ t.takeWhile isBlank := by
  induction t generalizing rest with
  | nil => cases h
  | cons c t ih =>
    rw [fromLastBreak?] at h
    split at h
    · next hc =>
      rw [List.takeWhile_cons_of_pos hc]
      split at h
      · next r hr => exact List.mem_cons_of_mem c (ih hr)
      · split at h
        · next hbreak =>
          rw [hbreak]
          exact List.mem_cons_self
        · cases h
    · cases h

/-! ### The line of an `end` -/

theorem bareEnd?_append {lead tail : Text} (hlead : ∀ c ∈ lead, isBlank c = true) (htail : ∀ c ∈ tail, isBlank c = true)
    (hrest : StopsBlanks rest) : bareEnd? (lead ++ ("end" ++ (tail ++ rest))) = some rest := by
  have hstart : trimStart (lead ++ ("end" ++ (tail ++ rest))) = "end" ++ (tail ++ rest) :=
    List.dropWhile_append_of_pos hlead
  have hend : dropLead? "end" ("end" ++ (tail ++ rest)) = some (tail ++ rest) := dropLead?_eq_some_iff.mpr rfl
  have htrim : trimStart (tail ++ rest) = trimStart rest := List.dropWhile_append_of_pos htail
  rw [bareEnd?, hstart, hend]
  simp only [Option.bind_eq_bind, Option.bind_some, htrim]
  rcases hrest with rfl | ⟨gap, u, rfl, hgap, hu⟩
  · rfl
  · have hne : (trimStart ('\n' :: (gap ++ u))).isEmpty = false := by
      obtain ⟨c, hc, hblank⟩ := hu
      obtain ⟨u, rfl⟩ := List.head?_eq_some_iff.mp hc
      have hgap' : trimStart (gap ++ c :: u) = trimStart (c :: u) :=
        List.dropWhile_append_of_pos fun d hd => (hgap d hd).1
      rw [trimStart_cons_of_isBlank rfl, hgap', trimStart_cons_of_not_isBlank hblank]
      rfl
    rw [hne]
    exact fromLastBreak?_append htail hgap hu

theorem exists_parts_of_beginsBareEnd (h : BeginsBareEnd t) : ∃ indent tail rest, t = indent ++ ("end" ++ (tail ++ rest)) ∧
    (∀ c ∈ indent, isBlank c = true ∧ c ≠ '\n') ∧ (∀ c ∈ tail, isBlank c = true) ∧ StopsBlanks rest := by
  obtain ⟨x, ht, hx⟩ := exists_firstLine t
  obtain ⟨indent, b, hline, hindent, hb⟩ := exists_append_trim (firstLine t)
  have hbreak := not_mem_firstLine t
  rw [show trim (firstLine t) = _ from h] at hline
  have hfirst : ∀ c ∈ firstLine (b ++ x), isBlank c = true := by
    have hb' : '\n' ∉ b := fun hmem => hbreak (by rw [hline]; exact List.mem_append_right _ (List.mem_append_right _ hmem))
    rw [firstLine_append hb']
    have hnil : firstLine x = [] := by rcases hx with rfl | ⟨v, rfl⟩ <;> rfl
    rwa [hnil, List.append_nil]
  obtain ⟨tail, rest, hsplit, htail, hrest⟩ := exists_stopsBlanks hfirst
  refine ⟨indent, tail, rest, ?_, fun c hc => ⟨hindent c hc, ?_⟩, htail, hrest⟩
  · rw [ht, hline, List.append_assoc, List.append_assoc, hsplit]
  · rintro rfl
    exact hbreak (by rw [hline]; exact List.mem_append_left _ hc)

/-- What is read as the line of an `end` is one, behind blank lines. -/
theorem exists_beginsBareEnd_of_bareEnd? (h : bareEnd? t = some rest) :
    ∃ lead v, t = lead ++ v ∧ (∀ c ∈ lead, isBlank c = true) ∧ EndsLine lead ∧ BeginsBareEnd v := by
  obtain ⟨r, hlead, h⟩ := Option.bind_eq_some_iff.mp h
  obtain ⟨lead, indent, hblanks, hline, hindent⟩ := exists_last_line (t.takeWhile isBlank)
  have hblank : ∀ c ∈ lead ++ indent, isBlank c = true := fun c hc => List.mem_takeWhile_imp (hblanks ▸ hc)
  have hr : ∀ c ∈ firstLine r, isBlank c = true := by
    have hall : ∀ {w x : Text}, r = w ++ x → (∀ c ∈ w, isBlank c = true) → (x = [] ∨ '\n' ∈ w) →
        ∀ c ∈ firstLine r, isBlank c = true := by
      rintro w x rfl hw hx c hc
      rcases hx with rfl | hbreak
      · rw [List.append_nil] at hc
        exact hw c (List.takeWhile_subset _ hc)
      · obtain ⟨w₁, w₂, rfl⟩ := List.append_of_mem hbreak
        rw [List.append_assoc, List.cons_append, firstLine_append_newline] at hc
        exact hw c (List.mem_append_left _ (List.takeWhile_subset _ hc))
    have hsplit : r = r.takeWhile isBlank ++ trimStart r := List.takeWhile_append_dropWhile.symm
    refine hall hsplit (fun c hc => List.mem_takeWhile_imp hc) ?_
    split at h
    · next hempty => exact Or.inl (List.isEmpty_iff.mp hempty)
    · exact Or.inr (exists_newline_of_fromLastBreak? h)
  refine ⟨lead, indent ++ ("end" ++ r), ?_, fun c hc => hblank c (List.mem_append_left indent hc), hline, ?_⟩
  · rw [← List.append_assoc, ← hblanks, ← dropLead?_eq_some_iff.mp hlead, trimStart, List.takeWhile_append_dropWhile]
  · have hbreak : '\n' ∉ indent ++ "end" := by
      rw [List.mem_append, not_or]
      exact ⟨hindent, by decide⟩
    rw [BeginsBareEnd, ← List.append_assoc, firstLine_append hbreak, trim_append_right_of_isBlank hr,
      trim_append_of_isBlank fun c hc => hblank c (List.mem_append_right lead hc)]
    rfl

theorem afterBareEnd?_eq_none (h : ¬ HasBareEnd t) : afterBareEnd? t = none := by
  induction t with
  | nil => rfl
  | cons c t ih =>
    have hno : (if c = '\n' then bareEnd? t else none) = none := by
      split
      · next hbreak =>
        rw [Option.eq_none_iff_forall_ne_some]
        intro rest hread
        obtain ⟨lead, v, rfl, -, hline, hend⟩ := exists_beginsBareEnd_of_bareEnd? hread
        rw [hbreak] at h
        exact h (hasBareEnd_newline hline hend)
      · rfl
    rw [afterBareEnd?, hno]
    exact ih fun hlater => h (hlater.cons c)

/-- The lines before the first one that holds nothing but `end` are passed over. -/
theorem afterBareEnd?_append {inside indent tail : Text} (hinside : ¬ HasBareEnd inside)
    (hindent : ∀ c ∈ indent, isBlank c = true) (htail : ∀ c ∈ tail, isBlank c = true) (hrest : StopsBlanks rest) :
    afterBareEnd? (inside ++ '\n' :: (indent ++ ("end" ++ (tail ++ rest)))) = some rest := by
  induction inside with
  | nil =>
    rw [List.nil_append, afterBareEnd?, if_pos rfl, bareEnd?_append hindent htail hrest]
  | cons c inside ih =>
    have hlater : ¬ HasBareEnd inside := fun h => hinside (h.cons c)
    rw [List.cons_append, afterBareEnd?]
    split
    · next r hread =>
      split at hread
      · next hbreak =>
        rw [hbreak] at hinside
        obtain ⟨lead, v, hsplit, hlead, hline, hend⟩ := exists_beginsBareEnd_of_bareEnd? hread
        rcases List.append_eq_append_iff.mp hsplit with ⟨x, rfl, -⟩ | ⟨x, rfl, rfl⟩
        · -- Only blank lines stand before the `end` that is read here, and so it is the one that is meant.
          have hblank : ∀ c ∈ inside ++ '\n' :: indent, isBlank c = true := by
            rintro c hc
            rcases List.mem_append.mp hc with hc | hc
            · exact hlead c (List.mem_append_left x hc)
            · exact (List.forall_mem_cons (p := (isBlank · = true))).mpr ⟨rfl, hindent⟩ c hc
          have hsame := bareEnd?_append hblank htail hrest
          rw [List.append_assoc, List.cons_append] at hsame
          exact hread.symm.trans hsame
        · exact absurd (hasBareEnd_newline hline ((beginsBareEnd_append_newline x _).mp hend)) hinside
      · cases hread
    · exact ih hlater

/-! ### Definitions -/

/-- At the front of `t` stand the word `def`, blanks and a whole name, and `rest` behind them. -/
def OpensDefinition (before : Option Char) (t rest : Text) : Prop :=
  startsWord before = true ∧ endsWord rest = true ∧ ∃ gap name, t = "def" ++ (gap ++ (name ++ rest)) ∧ gap ≠ [] ∧
    (∀ c ∈ gap, isBlank c = true) ∧ IsWord name

/-- A definition, part by part: blanks behind `def`, the name, what stands between the name and the line of the first
    `end` that stands alone, the indentation of that line, and the blanks behind the `end`. -/
structure Parts where
  gap : Text
  name : Text
  inside : Text
  indent : Text
  tail : Text
  gap_ne_nil : gap ≠ []
  gap_blank : ∀ c ∈ gap, isBlank c = true
  name_word : IsWord name
  name_whole : endsWord inside = true
  inside_open : ¬ HasBareEnd inside
  indent_blank : ∀ c ∈ indent, isBlank c = true ∧ c ≠ '\n'
  tail_blank : ∀ c ∈ tail, isBlank c = true

namespace Parts

/-- What stands behind the name. -/
def body (p : Parts) : Text := p.inside ++ '\n' :: (p.indent ++ ("end" ++ p.tail))

/-- The definition in full. -/
def text (p : Parts) : Text := "def" ++ (p.gap ++ (p.name ++ p.body))

theorem text_ne_nil (p : Parts) : p.text ≠ [] := List.cons_ne_nil _ _

theorem opensDefinition (p : Parts) (h : startsWord before = true) (rest : Text) :
    OpensDefinition before (p.text ++ rest) (p.body ++ rest) := by
  refine ⟨h, ?_, p.gap, p.name, ?_, p.gap_ne_nil, p.gap_blank, p.name_word⟩
  · have hwhole := p.name_whole
    rw [body]
    cases hinside : p.inside with
    | nil => rfl
    | cons c inside =>
      rw [hinside] at hwhole
      exact hwhole
  · simp only [text, List.append_assoc]

end Parts

/-- Where a line behind a name holds nothing but `end`, the definition ends with the first of these lines. -/
theorem OpensDefinition.exists_parts (h : OpensDefinition before t rest) (hend : HasBareEnd rest) :
    ∃ (p : Parts) (rest' : Text), t = p.text ++ rest' ∧ rest = p.body ++ rest' ∧ StopsBlanks rest' := by
  obtain ⟨-, hwhole, gap, name, rfl, hne, hblank, hname⟩ := h
  obtain ⟨inside, v, rfl, hinside, hv⟩ := hend.exists_first
  obtain ⟨indent, tail, rest', rfl, hindent, htail, hstops⟩ := exists_parts_of_beginsBareEnd hv
  have hwhole' : endsWord inside = true := by
    cases inside with
    | nil => rfl
    | cons c inside => exact hwhole
  refine ⟨⟨gap, name, inside, indent, tail, hne, hblank, hname, hwhole', hinside, hindent, htail⟩, rest', ?_, ?_, hstops⟩
  · simp only [Parts.text, Parts.body, List.append_assoc, List.cons_append]
  · simp only [Parts.body, List.append_assoc, List.cons_append]

theorem OpensDefinition.exists_name (h : OpensDefinition before t rest) : ∃ afterDef name,
    (dropLead? "def" t >>= blanks?) = some afterDef ∧ word? afterDef = some (name, rest) := by
  obtain ⟨-, hwhole, gap, name, rfl, hne, hblank, hname⟩ := h
  have hlead : dropLead? "def" ("def" ++ (gap ++ (name ++ rest))) = some (gap ++ (name ++ rest)) :=
    dropLead?_eq_some_iff.mpr rfl
  refine ⟨name ++ rest, name, ?_, word?_append hname.1 hname.2 hwhole⟩
  rw [hlead]
  exact blanks?_append hne hblank (hname.isBlank_head rest)

theorem OpensDefinition.rest_eq {before' : Option Char} {rest' : Text} (h : OpensDefinition before t rest)
    (h' : OpensDefinition before' t rest') : rest = rest' := by
  obtain ⟨afterDef, name, hdef, hname⟩ := h.exists_name
  obtain ⟨afterDef', name', hdef', hname'⟩ := h'.exists_name
  cases hdef.symm.trans hdef'
  cases hname.symm.trans hname'
  rfl

theorem read?_of_opensDefinition (h : OpensDefinition before t rest) :
    read? before t = (afterBareEnd? rest).map fun r => (t.take (t.length - r.length), r) := by
  obtain ⟨afterDef, name, hdef, hname⟩ := h.exists_name
  rw [read?, hdef, h.1]
  simp only [Option.bind_eq_bind, Option.bind_some, hname]
  cases afterBareEnd? rest <;> rfl

theorem exists_opensDefinition_of_read? {x : Text × Text} (h : read? before t = some x) :
    ∃ rest, OpensDefinition before t rest := by
  unfold read? at h
  cases hstart : startsWord before with
  | false =>
    rw [hstart] at h
    cases h
  | true =>
    rw [hstart] at h
    obtain ⟨afterDef, hdef, h⟩ := Option.bind_eq_some_iff.mp h
    obtain ⟨⟨name, rest⟩, hname, -⟩ := Option.bind_eq_some_iff.mp h
    obtain ⟨u, hlead, hblanks⟩ := Option.bind_eq_some_iff.mp hdef
    obtain ⟨gap, rfl, hne, hblank⟩ := eq_of_blanks? hblanks
    have hwhole := endsWord_of_word? hname
    obtain ⟨hword, rfl⟩ := eq_of_word? hname
    exact ⟨rest, hstart, hwhole, gap, name, dropLead?_eq_some_iff.mp hlead, hne, hblank, hword⟩

theorem read?_append (p : Parts) (hstart : startsWord before = true) (hrest : StopsBlanks rest) :
    read? before (p.text ++ rest) = some (p.text, rest) := by
  have hend : afterBareEnd? (p.body ++ rest) = some rest := by
    have happend := afterBareEnd?_append p.inside_open (fun c hc => (p.indent_blank c hc).1) p.tail_blank hrest
    simpa only [Parts.body, List.append_assoc, List.cons_append] using happend
  rw [read?_of_opensDefinition (p.opensDefinition hstart rest), hend, Option.map_some, List.length_append,
    Nat.add_sub_cancel, List.take_left]

theorem read?_eq_none (h : ∀ rest, OpensDefinition before t rest → ¬ HasBareEnd rest) : read? before t = none := by
  rw [Option.eq_none_iff_forall_ne_some]
  intro x hread
  obtain ⟨rest, hopens⟩ := exists_opensDefinition_of_read? hread
  rw [read?_of_opensDefinition hopens, afterBareEnd?_eq_none (h rest hopens)] at hread
  cases hread

/-- What is read as a definition is one, and ends where its blanks do. -/
theorem read?_eq_some_iff {unit : Text} : read? before t = some (unit, rest) ↔
    startsWord before = true ∧ ∃ p : Parts, unit = p.text ∧ t = p.text ++ rest ∧ StopsBlanks rest := by
  constructor
  · intro h
    obtain ⟨afterName, hopens⟩ := exists_opensDefinition_of_read? h
    have hend : HasBareEnd afterName := by
      by_contra hno
      rw [read?_of_opensDefinition hopens, afterBareEnd?_eq_none hno] at h
      cases h
    obtain ⟨p, rest', rfl, -, hrest⟩ := hopens.exists_parts hend
    cases (read?_append p hopens.1 hrest).symm.trans h
    exact ⟨hopens.1, p, rfl, rfl, hrest⟩
  · rintro ⟨hstart, p, rfl, rfl, hrest⟩
    exact read?_append p hstart hrest

/-- What stands behind the name of a later definition stands behind the name of an earlier one. -/
theorem OpensDefinition.exists_append {s rest' : Text} {before' : Option Char}
    (h : OpensDefinition before (s ++ t) rest) (h' : OpensDefinition before' t rest') : ∃ x, rest = x ++ rest' := by
  by_cases hne : s = []
  · rw [hne] at h
    exact ⟨[], h.rest_eq h'⟩
  obtain ⟨-, -, gap, name, hsplit, -, hblank, hname⟩ := h
  obtain ⟨-, -, gap', name', rfl, hne', hblank', -⟩ := h'
  -- The first character of `def` is none of the others, and no blank: `t` begins behind the blanks.
  have hbehind : ∃ y, name ++ rest = y ++ ("def" ++ (gap' ++ (name' ++ rest'))) := by
    rw [← List.append_assoc "def" gap] at hsplit
    rcases List.append_eq_append_iff.mp hsplit with ⟨x, hx, hmore⟩ | ⟨x, -, hmore⟩
    · cases x with
      | nil => exact ⟨[], hmore.symm⟩
      | cons c x =>
        obtain ⟨d, s, rfl⟩ := List.exists_cons_of_ne_nil hne
        obtain ⟨rfl, -⟩ := List.cons.inj hmore
        have hd : 'd' ∈ "ef" ++ gap := by
          have htail : "ef" ++ gap = s ++ 'd' :: x := (List.cons.inj hx).2
          rw [htail]
          exact List.mem_append_right s List.mem_cons_self
        rcases List.mem_append.mp hd with hd | hd
        · exact absurd hd (by decide)
        · cases hblank _ hd
    · exact ⟨x, hmore⟩
  obtain ⟨y, hy⟩ := hbehind
  have hy' : name ++ rest = (y ++ ("def" ++ (gap' ++ name'))) ++ rest' := by
    rw [hy]
    simp only [List.append_assoc]
  rcases List.append_eq_append_iff.mp hy' with ⟨x, -, hrest⟩ | ⟨x, hx, -⟩
  · exact ⟨x, hrest⟩
  · -- A name holds no blanks.
    obtain ⟨c, gap', rfl⟩ := List.exists_cons_of_ne_nil hne'
    have hc : isWordChar c = true := hname.2 c (by rw [hx]; simp)
    rw [isWordChar_of_isBlank (hblank' c List.mem_cons_self)] at hc
    cases hc

/-! ### Reading greedily -/

/-- The first place of `gap ++ t` at which a definition is opened lies behind `gap`. -/
def IsFirstPlace (before : Option Char) (gap t rest : Text) : Prop :=
  OpensDefinition (gap.getLast?.or before) t rest ∧
    ∀ s v rest', gap = s ++ v → v ≠ [] → ¬ OpensDefinition (s.getLast?.or before) (v ++ t) rest'

/-- The definitions of a text that stands behind the character `before`, one after the other. At the first place
    where `def` and a name stand, the text is cut behind the first line that holds nothing but `end`, and it is gone
    on from there. Without such a place, or without such a line behind it, the cutting ends. -/
inductive IsCutGreedily : Option Char → Text → List Text → Prop where
  | done {before : Option Char} {t : Text} (hnone : ∀ s u rest, t = s ++ u → ¬ OpensDefinition (s.getLast?.or before) u rest) :
      IsCutGreedily before t []
  | unended {before : Option Char} {gap t rest : Text} (hfirst : IsFirstPlace before gap t rest)
      (hend : ¬ HasBareEnd rest) : IsCutGreedily before (gap ++ t) []
  | unit {before : Option Char} {gap rest : Text} {units : List Text} (p : Parts)
      (hfirst : IsFirstPlace before gap (p.text ++ rest) (p.body ++ rest)) (hrest : StopsBlanks rest)
      (hlater : IsCutGreedily ((gap ++ p.text).getLast?.or before) rest units) :
      IsCutGreedily before (gap ++ (p.text ++ rest)) (p.text :: units)

theorem exists_isFirstPlace (h : ∃ s u rest, t = s ++ u ∧ OpensDefinition (s.getLast?.or before) u rest) :
    ∃ gap u rest, t = gap ++ u ∧ IsFirstPlace before gap u rest := by
  induction t generalizing before with
  | nil =>
    obtain ⟨s, u, rest, hsplit, hopens⟩ := h
    obtain ⟨rfl, rfl⟩ := List.append_eq_nil_iff.mp hsplit.symm
    exact ⟨[], [], rest, rfl, hopens, fun s v _ hv hne => absurd (List.append_eq_nil_iff.mp hv.symm).2 hne⟩
  | cons c t ih =>
    by_cases hfront : ∃ rest, OpensDefinition before (c :: t) rest
    · obtain ⟨rest, hopens⟩ := hfront
      refine ⟨[], c :: t, rest, rfl, by rwa [List.getLast?_nil, Option.none_or], fun s v _ hv hne => ?_⟩
      exact absurd (List.append_eq_nil_iff.mp hv.symm).2 hne
    · have hlater : ∃ s u rest, t = s ++ u ∧ OpensDefinition (s.getLast?.or (some c)) u rest := by
        obtain ⟨_ | ⟨d, s⟩, u, rest, hsplit, hopens⟩ := h
        · rw [List.nil_append] at hsplit
          rw [List.getLast?_nil, Option.none_or, ← hsplit] at hopens
          exact absurd ⟨rest, hopens⟩ hfront
        · obtain ⟨rfl, rfl⟩ := List.cons.inj hsplit
          rw [getLast?_cons_or] at hopens
          exact ⟨s, u, rest, rfl, hopens⟩
      obtain ⟨gap, u, rest, rfl, hopens, hfree⟩ := ih hlater
      refine ⟨c :: gap, u, rest, rfl, by rwa [getLast?_cons_or], ?_⟩
      rintro (_ | ⟨d, s⟩) v rest' hv hne hopens'
      · rw [List.nil_append] at hv
        rw [← hv] at hopens'
        exact hfront ⟨rest', hopens'⟩
      · obtain ⟨rfl, rfl⟩ := List.cons.inj hv
        rw [getLast?_cons_or] at hopens'
        exact hfree s v rest' rfl hne hopens'

theorem exists_isCutGreedily (before : Option Char) (t : Text) : ∃ units, IsCutGreedily before t units := by
  induction h : t.length using Nat.strong_induction_on generalizing before t with
  | _ n ih =>
    by_cases hplace : ∃ s u rest, t = s ++ u ∧ OpensDefinition (s.getLast?.or before) u rest
    · obtain ⟨gap, u, rest, rfl, hfirst⟩ := exists_isFirstPlace hplace
      by_cases hend : HasBareEnd rest
      · obtain ⟨p, rest', rfl, rfl, hstops⟩ := hfirst.1.exists_parts hend
        have hshort : rest'.length < n := by
          have hpos := List.length_pos_of_ne_nil p.text_ne_nil
          rw [← h, List.length_append, List.length_append]
          omega
        obtain ⟨units, hlater⟩ := ih _ hshort ((gap ++ p.text).getLast?.or before) rest' rfl
        exact ⟨_, .unit p hfirst hstops hlater⟩
      · exact ⟨[], .unended hfirst hend⟩
    · refine ⟨[], .done fun s u rest hsplit hopens => hplace ⟨s, u, rest, hsplit, hopens⟩⟩

/-- Where the first place has no line behind it that holds nothing but `end`, no place has. -/
theorem IsFirstPlace.not_hasBareEnd {gap s u rest' : Text} (hfirst : IsFirstPlace before gap t rest)
    (hend : ¬ HasBareEnd rest) (hsplit : gap ++ t = s ++ u)
    (hopens : OpensDefinition (s.getLast?.or before) u rest') : ¬ HasBareEnd rest' := by
  intro hend'
  have hlater : ∀ x, t ≠ x ++ u := by
    rintro x rfl
    obtain ⟨y, rfl⟩ := hfirst.1.exists_append hopens
    exact hend (hend'.append_left y)
  rcases List.append_eq_append_iff.mp hsplit with ⟨x, -, ht⟩ | ⟨x, rfl, rfl⟩
  · exact hlater x ht
  · by_cases hx : x = []
    · exact hlater [] (by rw [hx]; rfl)
    · exact hfirst.2 s x rest' rfl hx hopens

namespace IsCutGreedily

theorem findAll_eq (h : IsCutGreedily before t units) : findAll read? before 0 t = units := by
  induction h with
  | done hnone =>
    exact findAll_eq_nil fun s u hsplit => read?_eq_none fun rest hopens => absurd hopens (hnone s u rest hsplit)
  | unended hfirst hend =>
    exact findAll_eq_nil fun s u hsplit => read?_eq_none fun rest hopens => hfirst.not_hasBareEnd hend hsplit hopens
  | @unit before gap rest units p hfirst hrest hlater ih =>
    have hmisses : Misses read? before gap (p.text ++ rest) := misses_of_split fun s c v hsplit =>
      read?_eq_none fun rest' hopens => absurd hopens (hfirst.2 s (c :: v) rest' hsplit (List.cons_ne_nil c v))
    have hread := read?_append p hfirst.1.1 hrest
    rw [List.getLast?_append, Option.or_assoc] at ih
    rw [findAll_append_of_misses hmisses, findAll_append_of_eq_some hread p.text_ne_nil, ih]

end IsCutGreedily

/-! ### Definitions and what stands between them -/

/-- Definitions with what stands before each of them. -/
def layout (pieces : List (Text × Parts)) : Text := pieces.flatMap fun p => p.1 ++ p.2.text

/-- The character at the place `n` belongs to one of the definitions. -/
def Covers (pieces : List (Text × Parts)) (n : Nat) : Prop := ∃ front gap p behind, pieces = front ++ (gap, p) :: behind ∧
  (layout front ++ gap).length ≤ n ∧ n < (layout front ++ gap ++ p.text).length

theorem layout_cons (gap : Text) (p : Parts) (pieces : List (Text × Parts)) :
    layout ((gap, p) :: pieces) = gap ++ p.text ++ layout pieces := List.flatMap_cons

theorem Covers.cons {pieces : List (Text × Parts)} {n : Nat} (h : Covers pieces n) (gap : Text) (p : Parts) :
    Covers ((gap, p) :: pieces) ((gap ++ p.text).length + n) := by
  obtain ⟨front, gap', p', behind, rfl, hstart, hstop⟩ := h
  have hshift : ∀ t, (layout ((gap, p) :: front) ++ t).length = (gap ++ p.text).length + (layout front ++ t).length := by
    intro t
    rw [layout_cons, List.append_assoc (gap ++ p.text)]
    exact List.length_append
  refine ⟨(gap, p) :: front, gap', p', behind, rfl, ?_, ?_⟩
  · rw [hshift]
    exact Nat.add_le_add_left hstart _
  · rw [List.append_assoc, hshift, ← List.append_assoc]
    exact Nat.add_lt_add_left hstop _

theorem IsCutGreedily.exists_pieces (h : IsCutGreedily before t units) : ∃ (pieces : List (Text × Parts)) (rest : Text),
    t = layout pieces ++ rest ∧ units = pieces.map (·.2.text) ∧ ∀ s u r, t = s ++ u →
      OpensDefinition (s.getLast?.or before) u r → HasBareEnd r → Covers pieces s.length := by
  induction h with
  | @done before t hnone =>
    exact ⟨[], t, rfl, rfl, fun s u r hsplit hopens => absurd hopens (hnone s u r hsplit)⟩
  | @unended before gap t rest hfirst hend =>
    exact ⟨[], gap ++ t, rfl, rfl, fun s u r hsplit hopens hend' =>
      absurd hend' (hfirst.not_hasBareEnd hend hsplit hopens)⟩
  | @unit before gap rest units p hfirst hrest hlater ih =>
    obtain ⟨pieces, rest', rfl, rfl, hcovers⟩ := ih
    refine ⟨(gap, p) :: pieces, rest', ?_, rfl, fun s u r hsplit hopens hend => ?_⟩
    · rw [layout_cons]
      simp only [List.append_assoc]
    · have hs : s <+: gap ++ (p.text ++ (layout pieces ++ rest')) := ⟨u, hsplit.symm⟩
      rcases Nat.lt_or_ge s.length (gap ++ p.text).length with hlt | hge
      · refine ⟨[], gap, p, pieces, rfl, Nat.le_of_not_lt fun hbefore => ?_, hlt⟩
        -- No place lies before the first one.
        obtain ⟨x, rfl⟩ := List.prefix_of_prefix_length_le hs (List.prefix_append gap _) (Nat.le_of_lt hbefore)
        rw [List.append_assoc] at hsplit
        rw [← List.append_cancel_left hsplit] at hopens
        refine hfirst.2 s x r rfl ?_ hopens
        rintro rfl
        exact Nat.lt_irrefl _ (List.append_nil s ▸ hbefore)
      · have hunit : gap ++ p.text <+: gap ++ (p.text ++ (layout pieces ++ rest')) := ⟨_, List.append_assoc _ _ _⟩
        obtain ⟨y, rfl⟩ := List.prefix_of_prefix_length_le hunit hs hge
        rw [List.append_assoc, List.append_assoc] at hsplit
        have hrest := List.append_cancel_left (List.append_cancel_left hsplit)
        rw [List.getLast?_append, Option.or_assoc] at hopens
        rw [List.length_append]
        exact (hcovers y u r hrest hopens hend).cons gap p

/-- The definition blocks of a text are cut out greedily: each one begins at the first place behind the one before it
    where `def` and a name stand, ends with the first line behind the name that holds nothing but `end`, and takes the
    blanks behind that `end` up to the last line feed among them. The blocks stand in the text one after the other,
    with no such line between the name and the `end` (`Parts.inside_open`), and no place with such a line behind it
    lies outside all of them. -/
theorem blocks_eq_greedy_cut (text : Text) :
    (∀ units, IsCutGreedily none text units ↔ blocks text = units.map (⟨.definition, [], ·⟩)) ∧
    ∃ (pieces : List (Text × Parts)) (rest : Text), text = layout pieces ++ rest ∧
      blocks text = pieces.map (fun p => ⟨.definition, [], p.2.text⟩) ∧
      ∀ s u r, text = s ++ u → OpensDefinition s.getLast? u r → HasBareEnd r → Covers pieces s.length := by
  have hblocks : ∀ {units}, IsCutGreedily none text units → blocks text = units.map (⟨.definition, [], ·⟩) := by
    intro units hcut
    rw [blocks, all, hcut.findAll_eq]
  obtain ⟨units, hcut⟩ := exists_isCutGreedily none text
  refine ⟨fun units' => ⟨hblocks, fun hsame => ?_⟩, ?_⟩
  · have hinjective : Function.Injective (Block.mk .definition []) := fun u v h => (Block.mk.inj h).2.2
    rw [hblocks hcut] at hsame
    rwa [← hinjective.list_map hsame]
  · obtain ⟨pieces, rest, htext, rfl, hcovers⟩ := hcut.exists_pieces
    refine ⟨pieces, rest, htext, ?_, fun s u r hsplit hopens hend => hcovers s u r hsplit ?_ hend⟩
    · rw [hblocks hcut, List.map_map]
      rfl
    · rwa [Option.or_none]

example : blocks "# def f\r\n\r\n  end \n\n\nx = def\n g\n  end\nend\ndef h\n ends" =
    [⟨.definition, [], "def f\r\n\r\n  end \n\n"⟩, ⟨.definition, [], "def\n g\n  end"⟩] := by decide

end EndpointAtlas.Definition
