import EndpointAtlas.Proofs.Block.Document
import EndpointAtlas.Proofs.Block.Slices

/-! Declarations and resource lines inside a block. A block takes a line that could begin another one only where
    something of it is open: the literal of its header, or a body of parameters or of the handler. One kind of
    header takes more than that: where the first line ends in a comma, the header waits for its literal, and
    until a brace is opened every line belongs to it. -/

namespace EndpointAtlas.Description
open Text

/-! ### What is open -/

/-- Up to each of the lines, the lines have the property `p`. -/
def Throughout (p : List Text → Prop) (ls : List Text) : Prop := ∀ n < ls.length, p (ls.take (n + 1))

/-- The first line of a header begins a literal, or lets one follow. -/
def AllowsLiteral (first : Text) : Prop := '\x7b' ∈ first ∨ endsIn ',' (trim first) = true

/-- The lines begin with all lines of a header. -/
def HasHeader (ls : List Text) : Prop := ∃ (h : Header) (more : List Text), ls = h.lines ++ more

/-- The literal of a header is open behind its lines: more braces are opened than closed, and nowhere before
    have all of them been closed. -/
def IsLiteralOpen (ls : List Text) : Prop :=
  (∃ first ∈ ls.head?, AllowsLiteral first) ∧ Throughout (¬ IsBraced ·) ls ∧
    ls.flatten.count '\x7d' < ls.flatten.count '\x7b'

/-- A header waits for its literal behind its lines: the first one ends in a comma, and no brace is opened. -/
def IsLiteralAwaited (ls : List Text) : Prop :=
  (∃ first ∈ ls.head?, endsIn ',' (trim first) = true) ∧ '\x7b' ∉ ls.flatten

/-- Parameters or a handler are open behind the lines: they were opened behind the header, and since then at
    least one level has been open. -/
def IsBodyOpen (ls : List Text) : Prop := ∃ before first inside, ls = before ++ first :: inside ∧
  HasHeader before ∧ (Line.IsParams first ∨ Line.IsVerb first) ∧ Throughout (0 < levels ·) (first :: inside)

/-- Something of a block is open behind its lines. -/
def IsOpen (ls : List Text) : Prop := IsLiteralOpen ls ∨ IsBodyOpen ls ∨ IsLiteralAwaited ls

/-- How a block with the lines `ls` can stand at one of its parts. -/
inductive Stands (ls : List Text) : Part → Prop where
  | header (hdesc : ∃ first ∈ ls.head?, Line.IsDesc first ∧ AllowsLiteral first)
      (hopen : Throughout (¬ IsBraced ·) ls) : Stands ls (.ofLines ls)
  | between (hheader : HasHeader ls) : Stands ls .between
  | params (before : List Text) (first : Text) (inside : List Text) (hls : ls = before ++ first :: inside)
      (hheader : HasHeader before) (hfirst : Line.IsParams first)
      (hopen : Throughout (0 < levels ·) (first :: inside)) : Stands ls (.params (levels (first :: inside)))
  | handler (before : List Text) (first : Text) (inside : List Text) (hls : ls = before ++ first :: inside)
      (hheader : HasHeader before) (hfirst : Line.IsVerb first)
      (hopen : Throughout (0 < levels ·) (first :: inside)) : Stands ls (.handler (levels (first :: inside)))

section Lines
variable {p : List Text → Prop} {ls : List Text} {l : Text} {part : Part}

theorem throughout_nil : Throughout p [] := fun _ hn => absurd hn (Nat.not_lt_zero _)

theorem throughout_concat : Throughout p (ls ++ [l]) ↔ Throughout p ls ∧ p (ls ++ [l]) := by
  have htake : ∀ n < ls.length, (ls ++ [l]).take (n + 1) = ls.take (n + 1) := fun n hn =>
    List.take_append_of_le_length hn
  have hall : (ls ++ [l]).take (ls.length + 1) = ls ++ [l] := List.take_of_length_le (by simp)
  unfold Throughout
  rw [List.length_append, List.length_singleton]
  constructor
  · intro h
    exact ⟨fun n hn => htake n hn ▸ h n (Nat.lt_succ_of_lt hn), hall ▸ h ls.length (Nat.lt_succ_self _)⟩
  · rintro ⟨h, hlast⟩ n hn
    rcases Nat.lt_succ_iff_lt_or_eq.mp hn with hn | rfl
    · rw [htake n hn]
      exact h n hn
    · rw [hall]
      exact hlast

theorem throughout_singleton (h : p [l]) : Throughout p [l] := (@throughout_concat p [] l).mpr ⟨throughout_nil, h⟩

theorem Throughout.last (h : Throughout p ls) (hne : ls ≠ []) : p ls := by
  obtain ⟨init, l, rfl⟩ := (List.eq_nil_or_concat' ls).resolve_left hne
  exact (throughout_concat.mp h).2

/-- What comes with the last line, and was not there before it, is there first at the end. -/
theorem firstAtEnd_concat (h : Throughout (¬ p ·) ls) (hlast : p (ls ++ [l])) : FirstAtEnd p (ls ++ [l]) := by
  refine ⟨hlast, fun n hn hpos => ?_⟩
  rw [List.length_append, List.length_singleton] at hn
  obtain ⟨n, rfl⟩ := Nat.exists_eq_succ_of_ne_zero (Nat.ne_of_gt hpos)
  rw [List.take_append_of_le_length (Nat.le_of_lt_succ hn)]
  exact h n (Nat.lt_of_succ_lt_succ hn)

/-! ### Headers -/

theorem HasHeader.append (h : HasHeader ls) (ms : List Text) : HasHeader (ls ++ ms) := by
  obtain ⟨header, more, rfl⟩ := h
  exact ⟨header, more ++ ms, List.append_assoc _ _ _⟩

theorem HasHeader.ne_nil (h : HasHeader ls) : ls ≠ [] := by
  obtain ⟨header, more, rfl⟩ := h
  exact List.cons_ne_nil _ _

/-- A header holds more than blanks. -/
theorem HasHeader.trimStart_joinWith_ne_nil (h : HasHeader ls) : trimStart (joinWith "\n" ls) ≠ [] := by
  obtain ⟨header, more, rfl⟩ := h
  obtain ⟨t, htrim⟩ := header.declares
  have hfirst : trimStart header.first ≠ [] := by
    intro hnil
    rw [trim, hnil] at htrim
    cases htrim
  rw [Header.lines, List.cons_append, joinWith_cons_eq, trimStart_append hfirst]
  exact fun hnil => hfirst (List.append_eq_nil_iff.mp hnil).1

/-- Behind all its lines, a header waits for no literal. -/
theorem HasHeader.not_isLiteralAwaited (h : HasHeader ls) : ¬ IsLiteralAwaited ls := by
  obtain ⟨header, more, rfl⟩ := h
  rintro ⟨⟨first, hfirst, hcomma⟩, hbrace⟩
  cases hfirst
  have hends := header.ends
  rw [if_pos (Or.inr hcomma)] at hends
  rw [List.flatten_append] at hbrace
  exact hbrace (List.mem_append_left _ hends.1.1)

theorem stands_concat (hdesc : ∃ first ∈ (ls ++ [l]).head?, Line.IsDesc first ∧ AllowsLiteral first)
    (hopen : Throughout (¬ IsBraced ·) ls) : Stands (ls ++ [l]) (.ofLines (ls ++ [l])) := by
  -- With all its braces closed for the first time, the header ends with this line; otherwise it goes on.
  by_cases hbraced : IsBraced (ls ++ [l])
  · rw [Part.ofLines_of_isBraced hbraced]
    obtain ⟨first, hhead, hfirst, hallows⟩ := hdesc
    obtain ⟨rest, hls⟩ := List.head?_eq_some_iff.mp hhead
    have hends : FirstAtEnd IsBraced (first :: rest) := hls ▸ firstAtEnd_concat hopen hbraced
    refine .between ⟨⟨first, rest, hfirst, ?_⟩, [], ?_⟩
    · rw [if_pos (show _ ∨ _ from hallows)]
      exact hends
    · rw [hls, List.append_nil]
      rfl
  · exact .header hdesc (throughout_concat.mpr ⟨hopen, hbraced⟩)

theorem stands_ofDeclaration (hdesc : Line.IsDesc l) : Stands [l] (.ofDeclaration l) := by
  rw [Part.ofDeclaration_eq]
  split
  · next hallows => exact @stands_concat [] l ⟨l, rfl, hdesc, hallows⟩ throughout_nil
  · next hallows => exact .between ⟨⟨l, [], hdesc, by rw [if_neg hallows]⟩, [], rfl⟩

/-- Something of a block is open wherever it does not stand between two parts. -/
theorem Stands.isOpen (h : Stands ls part) (hpart : part ≠ .between) : IsOpen ls := by
  cases h with
  | header hdesc hopen =>
    obtain ⟨first, hhead, -, hallows⟩ := hdesc
    obtain ⟨rest, rfl⟩ := List.head?_eq_some_iff.mp hhead
    by_cases hbrace : '\x7b' ∈ (first :: rest).flatten
    · refine Or.inl ⟨⟨first, rfl, hallows⟩, hopen, Nat.lt_of_not_le fun hle => ?_⟩
      exact hopen.last (List.cons_ne_nil _ _) ⟨hbrace, hle⟩
    · refine Or.inr (Or.inr ⟨⟨first, rfl, hallows.resolve_left fun h => hbrace ?_⟩, hbrace⟩)
      exact List.mem_append_left _ h
  | between => exact absurd rfl hpart
  | params before first inside hls hheader hfirst hopen =>
    exact Or.inr (Or.inl ⟨before, first, inside, hls, hheader, Or.inl hfirst, hopen⟩)
  | handler before first inside hls hheader hfirst hopen =>
    exact Or.inr (Or.inl ⟨before, first, inside, hls, hheader, Or.inr hfirst, hopen⟩)

theorem Stands.hasHeader (h : Stands ls .between) : HasHeader ls := by
  generalize hp : Part.between = p at h
  cases h with
  | header hdesc hopen =>
    obtain ⟨first, hhead, -⟩ := hdesc
    obtain ⟨rest, rfl⟩ := List.head?_eq_some_iff.mp hhead
    rw [Part.ofLines_of_not_isBraced (hopen.last (List.cons_ne_nil _ _))] at hp
    cases hp
  | between hheader => exact hheader
  | params => cases hp
  | handler => cases hp

end Lines

/-! ### Lines one at a time -/

namespace Reading
variable {limit : Nat} {scopes around ls : List Text} {part : Part} {line : Text}

theorem eq_of_opensBody? {n : Int} (h : Line.opensBody? line = some n) : n = levels [line] ∧ 0 < levels [line] := by
  rw [levels_singleton]
  by_cases hpos : 0 < Keyword.depthChange line
  · rw [opensBody?_of_pos hpos] at h
    exact ⟨(Option.some.inj h).symm, hpos⟩
  · rw [opensBody?_of_not_pos hpos] at h
    cases h

/-- What a line does that a block takes: the block goes on, or this is its last line. -/
def Takes (limit : Nat) (scopes around ls : List Text) (part : Part) (line : Text) : Prop :=
  (∃ part', step limit ⟨scopes, some ⟨around, ls, part⟩⟩ line = (none, ⟨scopes, some ⟨around, ls ++ [line], part'⟩⟩) ∧
    Stands (ls ++ [line]) part') ∨
  step limit ⟨scopes, some ⟨around, ls, part⟩⟩ line =
    (some (Draft.close ⟨around, ls ++ [line], .between⟩), ⟨scopes, none⟩) ∧ HasHeader (ls ++ [line])

/-- A block that stands between two parts takes every other line. -/
theorem takes_between (hheader : HasHeader ls) (hbound : ¬ Line.IsBoundary line) :
    Takes limit scopes around ls .between line := by
  have hline := hheader.append [line]
  rw [Takes, show step limit ⟨scopes, some ⟨around, ls, .between⟩⟩ line =
    between limit scopes ⟨around, ls, .between⟩ line from rfl, between]
  split
  · exact Or.inl ⟨_, rfl, .between hline⟩
  · split
    · next hparams =>
      split
      · next n hbody =>
        obtain ⟨rfl, hpos⟩ := eq_of_opensBody? hbody
        exact Or.inl ⟨_, rfl, .params ls line [] rfl hheader (Line.isParams_of_opensParams hparams)
          (throughout_singleton hpos)⟩
      · exact Or.inl ⟨_, rfl, .between hline⟩
    · split
      · next hverb =>
        split
        · next n hbody =>
          obtain ⟨rfl, hpos⟩ := eq_of_opensBody? hbody
          exact Or.inl ⟨_, rfl, .handler ls line [] rfl hheader (Line.isVerb_of_handlerMethod? hverb)
            (throughout_singleton hpos)⟩
        · exact Or.inr ⟨rfl, hline⟩
      · rw [if_neg fun h => hbound (Line.isBoundary_iff.mp h)]
        exact Or.inl ⟨_, rfl, .between hline⟩

/-- What a line does to a block. The block ends before a line that could begin another one, or something of it
    is open there and it takes the line. -/
theorem step_of_stands (h : Stands ls part) (line : Text) :
    (Takes limit scopes around ls part line ∧ (Line.IsBoundary line → IsOpen ls)) ∨
    (HasHeader ls ∧ step limit ⟨scopes, some ⟨around, ls, part⟩⟩ line =
      (some (Draft.close ⟨around, ls, part⟩), outside limit scopes line)) := by
  have hbody : ∀ before first inside, ls = before ++ first :: inside →
      ls ++ [line] = before ++ first :: (inside ++ [line]) := by
    rintro before first inside rfl
    rw [List.append_assoc, List.cons_append]
  have hlevels : ∀ first inside,
      levels (first :: inside) + Keyword.depthChange line = levels (first :: (inside ++ [line])) := by
    intro first inside
    rw [← List.cons_append, levels_concat]
  -- No part but `between` asks whether the line could begin another block, so something has to be open there.
  have hisOpen : part ≠ .between → Line.IsBoundary line → IsOpen ls := fun hpart _ => h.isOpen hpart
  cases h with
  | header hdesc hopen =>
    have hne : ls ≠ [] := by
      rintro rfl
      obtain ⟨first, hfirst, -⟩ := hdesc
      cases hfirst
    refine Or.inl ⟨Or.inl ⟨_, step_header (hopen.last hne) line, stands_concat ?_ hopen⟩, hisOpen ?_⟩
    · rw [List.head?_append_of_ne_nil _ hne]
      exact hdesc
    · rw [Part.ofLines_of_not_isBraced (hopen.last hne)]
      exact Part.noConfusion
  | between hheader =>
    by_cases hbound : Line.IsBoundary line
    · exact Or.inr ⟨hheader, step_isBoundary hbound⟩
    · exact Or.inl ⟨takes_between hheader hbound, fun h => absurd h hbound⟩
  | params before first inside hls hheader hfirst hopen =>
    refine Or.inl ⟨Or.inl ⟨_, step_params line, ?_⟩, hisOpen Part.noConfusion⟩
    rw [hlevels, hbody _ _ _ hls]
    split
    · exact .between (hheader.append _)
    · next hpos =>
      exact .params before first _ rfl hheader hfirst (throughout_concat.mpr ⟨hopen, Int.not_le.mp hpos⟩)
  | handler before first inside hls hheader hfirst hopen =>
    refine Or.inl ⟨?_, hisOpen Part.noConfusion⟩
    rw [Takes, step_handler, hlevels, hbody _ _ _ hls]
    split
    · exact Or.inr ⟨rfl, hheader.append _⟩
    · next hpos =>
      exact Or.inl ⟨_, rfl, .handler before first _ rfl hheader hfirst
        (throughout_concat.mpr ⟨hopen, Int.not_le.mp hpos⟩)⟩

end Reading

/-! ### Slices -/

/-- The lines of a slice. -/
def Slice.lines (ls : List Text) (s : Slice) : List Text := (ls.take s.stop).drop s.start

/-- Behind the first of the lines, one that could begin another block stands only where something is open. -/
def IsNested (ls : List Text) : Prop := ∀ n, 0 < n → ∀ l ∈ ls[n]?, Line.IsBoundary l → IsOpen (ls.take n)

theorem isNested_singleton (l : Text) : IsNested [l] := fun n hn l' hl' => by
  rw [List.getElem?_eq_none (Nat.succ_le_of_lt hn)] at hl'
  cases hl'

theorem IsNested.concat {ls : List Text} {l : Text} (h : IsNested ls) (hl : Line.IsBoundary l → IsOpen ls) :
    IsNested (ls ++ [l]) := by
  intro n hn l' hl' hbound
  rcases Nat.lt_or_ge n ls.length with hlt | hge
  · rw [List.getElem?_append_left hlt] at hl'
    rw [List.take_append_of_le_length (Nat.le_of_lt hlt)]
    exact h n hn l' hl' hbound
  · have hn' : n < (ls ++ [l]).length := (List.getElem?_eq_some_iff.mp hl').1
    rw [List.length_append, List.length_singleton] at hn'
    obtain rfl : n = ls.length := Nat.le_antisymm (Nat.le_of_lt_succ hn') hge
    rw [List.getElem?_concat_length] at hl'
    cases hl'
    rw [List.take_left]
    exact hl hbound

/-- The lines of a block that a line has ended. -/
structure IsFinished (ls : List Text) : Prop where
  nested : IsNested ls
  header : HasHeader ls

/-- The slices cut finished blocks out of the lines. -/
structure IsNestedCut (limit : Nat) (ls : List Text) (slices : List Slice) (bs : List Block) : Prop extends
    IsCut limit ls slices bs where
  finished : ∀ s ∈ slices, IsFinished (s.lines ls)

namespace IsNestedCut
variable {limit : Nat} {ls : List Text} {slices : List Slice} {bs : List Block}

theorem lines_append (h : IsCut limit ls slices bs) {s : Slice} (hs : s ∈ slices) (more : List Text) :
    s.lines (ls ++ more) = s.lines ls := by
  rw [Slice.lines, List.take_append_of_le_length (h.within s hs).2, Slice.lines]

theorem lines_last (ls body : List Text) : Slice.lines (ls ++ body) ⟨ls.length, (ls ++ body).length⟩ = body := by
  rw [Slice.lines, List.take_length, List.drop_left]

theorem append_line (h : IsNestedCut limit ls slices bs) {line : Text} (hline : ¬ Line.IsDesc line) :
    IsNestedCut limit (ls ++ [line]) slices bs where
  toIsCut := h.toIsCut.append_line hline
  finished s hs := by
    rw [lines_append h.toIsCut hs]
    exact h.finished s hs

theorem append_block (h : IsNestedCut limit ls slices bs) {first : Text} (hfirst : Line.IsDesc first)
    {rest : List Text} (hbody : IsFinished (first :: rest)) :
    IsNestedCut limit (ls ++ first :: rest) (slices ++ [⟨ls.length, (ls ++ first :: rest).length⟩])
      (bs ++ [⟨.description, (scopesBefore limit ls slices ls.length).reverse,
        trim (joinWith "\n" (first :: rest))⟩]) where
  toIsCut := h.toIsCut.append_block hfirst rest
  finished s hs := by
    rcases List.mem_append.mp hs with hs | hs
    · rw [lines_append h.toIsCut hs]
      exact h.finished s hs
    · rw [List.mem_singleton.mp hs, lines_last]
      exact hbody

end IsNestedCut

/-! ### Whole texts -/

/-- What reading has come to after some lines, with what is open there. -/
inductive IsReadNested (limit : Nat) (ls : List Text) (bs : List Block) (r : Reading) : Prop where
  | between (slices : List Slice) (hcut : IsNestedCut limit ls slices bs)
      (hread : r = .start (scopesBefore limit ls slices ls.length))
  | within (before : List Text) (slices : List Slice) (first : Text) (rest : List Text) (part : Part)
      (hcut : IsNestedCut limit before slices bs) (hfirst : Line.IsDesc first) (hls : ls = before ++ first :: rest)
      (hnested : IsNested (first :: rest)) (hstands : Stands (first :: rest) part)
      (hread : r = ⟨scopesBefore limit before slices before.length,
        some ⟨(scopesBefore limit before slices before.length).reverse, first :: rest, part⟩⟩)

namespace IsReadNested
variable {limit : Nat} {ls : List Text} {bs : List Block} {r : Reading}

theorem outside {slices : List Slice} (h : IsNestedCut limit ls slices bs) (line : Text) :
    IsReadNested limit (ls ++ [line]) bs (Reading.outside limit (scopesBefore limit ls slices ls.length) line) := by
  by_cases hline : Line.IsDesc line
  · rw [Reading.outside_of_isDesc hline]
    exact .within ls slices line [] _ h hline rfl (isNested_singleton line) (stands_ofDeclaration hline) rfl
  · rw [outside_of_not_isDesc hline, ← h.toIsCut.scopesBefore_append_line line]
    exact .between slices (h.append_line hline) rfl

theorem step (h : IsReadNested limit ls bs r) (line : Text) :
    IsReadNested limit (ls ++ [line]) (bs ++ (Reading.step limit r line).1.toList) (Reading.step limit r line).2 := by
  cases h with
  | between slices hcut hread =>
    rw [hread, Reading.step_of_none rfl, Option.toList_none, List.append_nil]
    exact outside hcut line
  | within before slices first rest part hcut hfirst hls hnested hstands hread =>
    have hls' : ls ++ [line] = before ++ first :: (rest ++ [line]) := by rw [hls, List.append_assoc, List.cons_append]
    -- The block takes the line, as its last one or not, or ends before it and leaves it to be read outside.
    rcases Reading.step_of_stands hstands line with ⟨htakes, hbound⟩ | ⟨hheader, hstep⟩
    · have hnested' : IsNested (first :: (rest ++ [line])) := hnested.concat hbound
      rcases htakes with ⟨part', hstep, hstands'⟩ | ⟨hstep, hheader⟩
      · rw [hread, hstep, Option.toList_none, List.append_nil]
        exact .within before slices first (rest ++ [line]) part' hcut hfirst hls' hnested' hstands' rfl
      · rw [hread, hstep, Option.toList_some, hls']
        refine .between _ (hcut.append_block hfirst ⟨hnested', hheader⟩) ?_
        rw [IsCut.scopesBefore_append_block before slices (first :: (rest ++ [line]))]
        rfl
    · rw [hread, hstep, Option.toList_some, hls]
      have houtside := outside (hcut.append_block hfirst ⟨hnested, hheader⟩) line
      rw [IsCut.scopesBefore_append_block before slices (first :: rest)] at houtside
      exact houtside

theorem run (limit : Nat) (ls : List Text) :
    IsReadNested limit ls (Reading.run limit (.start []) ls).1 (Reading.run limit (.start []) ls).2 := by
  induction ls using List.reverseRecOn with
  | nil => exact .between [] ⟨.nil, fun _ hs => nomatch hs⟩ rfl
  | append_singleton ls line ih =>
    rw [Reading.run_concat]
    exact ih.step line

/-- The end of the text closes the open block, whatever is open in it. -/
theorem finish (h : IsReadNested limit ls bs r) : ∃ slices, IsCut limit ls slices (bs ++ r.finish) ∧
    ∀ s ∈ slices, IsNested (s.lines ls) ∧ (s.stop < ls.length → HasHeader (s.lines ls)) := by
  cases h with
  | between slices hcut hread =>
    have hfinish : r.finish = [] := by
      rw [hread]
      rfl
    rw [hfinish, List.append_nil]
    exact ⟨slices, hcut.toIsCut, fun s hs => ⟨(hcut.finished s hs).nested, fun _ => (hcut.finished s hs).header⟩⟩
  | within before slices first rest part hcut hfirst hls hnested hstands hread =>
    rw [hread, hls]
    refine ⟨_, hcut.toIsCut.append_block hfirst rest, fun s hs => ?_⟩
    rcases List.mem_append.mp hs with hs | hs
    · rw [IsNestedCut.lines_append hcut.toIsCut hs]
      exact ⟨(hcut.finished s hs).nested, fun _ => (hcut.finished s hs).header⟩
    · rw [List.mem_singleton.mp hs, IsNestedCut.lines_last]
      exact ⟨hnested, fun hlt => absurd hlt (Nat.lt_irrefl _)⟩

end IsReadNested

theorem Reading.stands_of_run {limit : Nat} {scopes around before ls : List Text} {part : Part}
    (h : (run limit (.start []) before).2 = ⟨scopes, some ⟨around, ls, part⟩⟩) : Stands ls part := by
  cases IsReadNested.run limit before with
  | between slices hcut hread =>
    rw [h] at hread
    cases hread
  | within front slices first rest part' hcut hfirst hls hnested hstands hread =>
    rw [h] at hread
    cases hread
    exact hstands

theorem take_lines (ls : List Text) {s : Slice} {n : Nat} (hstart : s.start ≤ n) (hstop : n ≤ s.stop) :
    (s.lines ls).take (n - s.start) = (ls.take n).drop s.start := by
  rw [Slice.lines, List.take_drop, Nat.add_sub_cancel' hstart, List.take_take, Nat.min_eq_left hstop]

theorem getElem?_lines (ls : List Text) {s : Slice} {n : Nat} (hstart : s.start ≤ n) (hstop : n < s.stop) :
    (s.lines ls)[n - s.start]? = ls[n]? := by
  rw [Slice.lines, List.getElem?_drop, Nat.add_sub_cancel' hstart, List.getElem?_take_of_lt hstop]

/-- The blocks of any text are slices of its lines. A line of a slice behind its first that could begin another
    block stands where the literal of the header is open, or a body of parameters or of the handler, or where
    the header waits for its literal. A block that ends before the text does has all lines of its header, and that
    header waits for nothing: what waits for a literal in vain takes every line up to the end of the text. -/
theorem takes_boundary_only_where_open (limit : Nat) (text : Text) :
    ∃ slices, IsCut limit (lines text) slices (blocks limit text) ∧ ∀ s ∈ slices,
      (∀ n, s.start < n → n < s.stop → ∀ l ∈ (lines text)[n]?, Line.IsBoundary l →
        let before := ((lines text).take n).drop s.start
        IsLiteralOpen before ∨ IsBodyOpen before ∨ IsLiteralAwaited before) ∧
      (s.stop < (lines text).length →
        HasHeader (s.lines (lines text)) ∧ ¬ IsLiteralAwaited (s.lines (lines text))) := by
  obtain ⟨slices, hcut, hslices⟩ : ∃ slices, IsCut limit (lines text) slices (blocks limit text) ∧ _ :=
    (IsReadNested.run limit (lines text)).finish
  refine ⟨slices, hcut, fun s hs => ⟨fun n hstart hstop l hl hbound => ?_, fun hstop => ?_⟩⟩
  · rw [← getElem?_lines _ (Nat.le_of_lt hstart) hstop] at hl
    rw [← take_lines _ (Nat.le_of_lt hstart) (Nat.le_of_lt hstop)]
    exact (hslices s hs).1 _ (Nat.sub_pos_of_lt hstart) l hl hbound
  · have hheader : HasHeader (s.lines (lines text)) := (hslices s hs).2 hstop
    exact ⟨hheader, hheader.not_isLiteralAwaited⟩

/-- What follows the comma of a declaration stands in no braces: the next declaration stands in the same block,
    though no literal and no body is open before it. -/
theorem declaration_lost_behind_comma :
    let text : Text := "desc 'A',\n  detail: 'x'\ndesc 'B'\nget :b do\nend\n"
    let before : List Text := ["desc 'A',", "  detail: 'x'"]
    lines text = before ++ (["desc 'B'", "get :b do", "end"] : List Text) ∧
    blocks 4 text = [⟨.description, [], "desc 'A',\n  detail: 'x'\ndesc 'B'\nget :b do\nend"⟩] ∧
    Line.IsBoundary "desc 'B'" ∧ ¬ IsLiteralOpen before ∧ ¬ IsBodyOpen before := by
  intro text before
  refine ⟨by decide +kernel, by decide +kernel, Line.isBoundary_iff.mp (by decide), ?_, ?_⟩
  · rintro ⟨-, -, hopen⟩
    exact absurd hopen (by decide)
  · rintro ⟨front, first, inside, hls, hheader, -, hopen⟩
    -- Behind the header there is only the second line, which opens no body.
    obtain ⟨line, front, rfl⟩ := List.exists_cons_of_ne_nil hheader.ne_nil
    have hrest : [("  detail: 'x'" : Text)] = front ++ first :: inside := (List.cons.inj hls).2
    obtain ⟨-, hfirst⟩ | ⟨-, hnil⟩ := List.append_eq_singleton_iff.mp hrest.symm
    · rw [hfirst] at hopen
      exact absurd (hopen 0 Nat.one_pos) (by decide +kernel)
    · cases hnil

end EndpointAtlas.Description
