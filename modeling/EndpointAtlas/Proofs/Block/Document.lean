import EndpointAtlas.Proofs.Block.Reading
import Mathlib.Algebra.Ring.Int.Defs
import Mathlib.Data.List.Basic

/-! Well-formed routing files, and the blocks that are found in them. A file is a forest of resources with
    endpoints in them (`Forest`); the lines of an endpoint are its header, its parameters and its handler.
    What stands in a literal or in a body is free: it may look like any other kind of line. Reading the
    lines of a forest finds exactly its endpoints. -/

namespace EndpointAtlas.Description
open Text

/-! ### Where a part of an endpoint ends -/

/-- All lines together have the property `p`, and the lines from the first one to an earlier one do not. -/
def FirstAtEnd (p : List Text → Prop) (ls : List Text) : Prop :=
  p ls ∧ ∀ n < ls.length, 0 < n → ¬ p (ls.take n)

instance {p : List Text → Prop} [DecidablePred p] : DecidablePred (FirstAtEnd p) := fun _ =>
  inferInstanceAs (Decidable (_ ∧ _))

/-- The lines hold an opening brace, and no fewer closing ones than opening ones. -/
def IsBraced (ls : List Text) : Prop :=
  '\x7b' ∈ ls.flatten ∧ ls.flatten.count '\x7b' ≤ ls.flatten.count '\x7d'

instance : DecidablePred IsBraced := fun _ => inferInstanceAs (Decidable (_ ∧ _))

/-- By how many levels of bodies the lines change the nesting. -/
def levels (ls : List Text) : Int := (ls.map Keyword.depthChange).sum

/-- The lines close all bodies that they open. -/
def IsBalanced (ls : List Text) : Prop := levels ls ≤ 0

instance : DecidablePred IsBalanced := fun ls => inferInstanceAs (Decidable (levels ls ≤ 0))

/-! ### Documents -/

/-- The header of an endpoint: one line, or as many as its literal takes, where the first line holds a
    brace or ends in a comma. -/
structure Header where
  first : Text
  rest : List Text
  declares : Line.IsDesc first
  ends : if '\x7b' ∈ first ∨ endsIn ',' (trim first) = true then FirstAtEnd IsBraced (first :: rest)
    else rest = []

/-- The parameters of an endpoint, behind silent lines. -/
structure Params where
  lead : List Text
  first : Text
  rest : List Text
  silent : ∀ l ∈ lead, Line.IsSilent l
  params : Line.IsParams first
  opens : 0 < Keyword.depthChange first
  ends : FirstAtEnd IsBalanced (first :: rest)

/-- The handler of an endpoint, behind silent lines. -/
structure Handler where
  lead : List Text
  first : Text
  rest : List Text
  silent : ∀ l ∈ lead, Line.IsSilent l
  verb : Line.IsVerb first
  ends : FirstAtEnd IsBalanced (first :: rest)

/-- An endpoint in a document. -/
structure Item where
  header : Header
  params : Option Params
  handler : Handler

/-- A document: endpoints, resources around documents, and silent lines. An `end` that closes a resource is
    indented by at most `limit` columns. -/
inductive Forest (limit : Nat) where
  | nil
  | silent (line : Text) (hline : Line.IsSilent line) (rest : Forest limit)
  | item (i : Item) (rest : Forest limit)
  | resource (name opening closing : Text) (hopening : Line.IsOpening opening name)
      (hclosing : Line.IsClosing limit closing) (inside rest : Forest limit)

/-- The lines of a header. -/
def Header.lines (h : Header) : List Text := h.first :: h.rest

/-- The lines of parameters, with the silent ones before them. -/
def Params.lines (p : Params) : List Text := p.lead ++ p.first :: p.rest

/-- The lines of a handler, with the silent ones before it. -/
def Handler.lines (h : Handler) : List Text := h.lead ++ h.first :: h.rest

/-- The lines of an endpoint: header, parameters if there are any, handler. -/
def Item.lines (i : Item) : List Text :=
  i.header.lines ++ i.params.elim [] Params.lines ++ i.handler.lines

namespace Forest
variable {limit : Nat}

/-- The lines of a document. -/
def lines : Forest limit → List Text
  | nil => []
  | silent line _ rest => line :: rest.lines
  | item i rest => i.lines ++ rest.lines
  | resource _ opening closing _ _ inside rest => opening :: inside.lines ++ closing :: rest.lines

/-- The endpoints in the order of the document, each with the names of the resources around it, outermost
    first. `scopes` are those around the document. -/
def items (scopes : List Text) : Forest limit → List (List Text × Item)
  | nil => []
  | silent _ _ rest => rest.items scopes
  | item i rest => (scopes, i) :: rest.items scopes
  | resource name _ _ _ _ inside rest => inside.items (scopes ++ [name]) ++ rest.items scopes

end Forest

/-- The block of an endpoint. -/
def Item.block (scopes : List Text) (i : Item) : Block :=
  ⟨.description, scopes, trim (joinWith "\n" i.lines)⟩

/-! ### Parts that end with their last line -/

theorem FirstAtEnd.not_of_lt {p : List Text → Prop} {first : Text} {rest : List Text}
    (h : FirstAtEnd p (first :: rest)) {n : Nat} (hn : n < rest.length) : ¬ p (first :: rest.take n) :=
  h.2 (n + 1) (Nat.succ_lt_succ hn) (Nat.succ_pos n)

/-- What is not there on the first line comes with a last line. -/
theorem FirstAtEnd.exists_concat {p : List Text → Prop} {first : Text} {rest : List Text}
    (h : FirstAtEnd p (first :: rest)) (hfirst : ¬ p [first]) : ∃ init last, rest = init ++ [last] ∧
      ∀ n ≤ init.length, ¬ p (first :: init.take n) := by
  rcases List.eq_nil_or_concat' rest with rfl | ⟨init, last, rfl⟩
  · exact absurd h.1 hfirst
  · refine ⟨init, last, rfl, fun n hn => ?_⟩
    have hnot := h.not_of_lt (n := n) (by simp; omega)
    rwa [List.take_append_of_le_length hn] at hnot

theorem levels_append (ls ms : List Text) : levels (ls ++ ms) = levels ls + levels ms := by
  rw [levels, List.map_append, List.sum_append, levels, levels]

theorem levels_singleton (l : Text) : levels [l] = Keyword.depthChange l := by simp [levels]

theorem levels_cons (l : Text) (ls : List Text) : levels (l :: ls) = Keyword.depthChange l + levels ls := by
  rw [← List.singleton_append, levels_append, levels_singleton]

theorem levels_concat (ls : List Text) (l : Text) : levels (ls ++ [l]) = levels ls + Keyword.depthChange l := by
  rw [levels_append, levels_singleton]

/-! ### Headers -/

/-- Where a block stands when its header has the lines so far. -/
def Part.ofLines (ls : List Text) : Part :=
  ofHeader (Line.braceChange ls.flatten).1 (Line.braceChange ls.flatten).2

theorem braceChange_append (s t : Text) : Line.braceChange (s ++ t) =
    ((Line.braceChange s).1 + (Line.braceChange t).1, (Line.braceChange s).2 || (Line.braceChange t).2) := by
  unfold Line.braceChange
  rw [List.count_append, List.count_append, List.contains_append]
  refine Prod.ext ?_ rfl
  simp only
  omega

theorem opened_and_le_iff {ls : List Text} :
    ((Line.braceChange ls.flatten).2 && decide ((Line.braceChange ls.flatten).1 ≤ 0)) = true ↔ IsBraced ls := by
  rw [Bool.and_eq_true, decide_eq_true_iff]
  unfold Line.braceChange IsBraced
  rw [List.contains_iff_mem]
  refine and_congr_right fun _ => ?_
  simp only
  omega

theorem Part.ofLines_of_isBraced {ls : List Text} (h : IsBraced ls) : ofLines ls = between := by
  rw [ofLines, ofHeader, if_pos (opened_and_le_iff.mpr h)]

theorem Part.ofLines_of_not_isBraced {ls : List Text} (h : ¬ IsBraced ls) :
    ofLines ls = header (Line.braceChange ls.flatten).1 (Line.braceChange ls.flatten).2 := by
  rw [ofLines, ofHeader, if_neg (mt opened_and_le_iff.mp h)]

theorem Part.ofDeclaration_eq (l : Text) : ofDeclaration l =
    if '\x7b' ∈ l ∨ endsIn ',' (trim l) = true then ofLines [l] else between := by
  rw [ofLines, List.flatten_singleton]
  show (if (l.contains '\x7b' || endsIn ',' (trim l)) = true then _ else _) = _
  simp only [Bool.or_eq_true, List.contains_iff_mem]
  rfl

namespace Reading
variable {limit : Nat} {scopes around : List Text}

theorem step_header {ls : List Text} (h : ¬ IsBraced ls) (l : Text) :
    step limit ⟨scopes, some ⟨around, ls, .ofLines ls⟩⟩ l =
      (none, ⟨scopes, some ⟨around, ls ++ [l], .ofLines (ls ++ [l])⟩⟩) := by
  rw [Part.ofLines_of_not_isBraced h, Part.ofLines, List.flatten_append, List.flatten_singleton, braceChange_append]
  rfl

theorem run_header_rest {ls rest : List Text} (h : ∀ n < rest.length, ¬ IsBraced (ls ++ rest.take n)) :
    run limit ⟨scopes, some ⟨around, ls, .ofLines ls⟩⟩ rest =
      ([], ⟨scopes, some ⟨around, ls ++ rest, .ofLines (ls ++ rest)⟩⟩) := by
  induction rest generalizing ls with
  | nil =>
    rw [List.append_nil]
    rfl
  | cons l rest ih =>
    have hls : ¬ IsBraced ls := by simpa using h 0 (Nat.succ_pos _)
    have hrest := @ih (ls ++ [l]) fun n hn => by simpa using h (n + 1) (Nat.succ_lt_succ hn)
    rw [List.append_assoc] at hrest
    exact run_cons_of_eq (step_header hls l) hrest

theorem step_desc {l : Text} (h : Line.IsDesc l) : step limit ⟨scopes, none⟩ l =
    (none, ⟨scopes, some ⟨scopes.reverse, [l], .ofDeclaration l⟩⟩) := by
  rw [step_of_none rfl, outside_of_isDesc h]

theorem run_header (h : Header) : run limit ⟨scopes, none⟩ h.lines =
    ([], ⟨scopes, some ⟨scopes.reverse, h.lines, .between⟩⟩) := by
  have hends := h.ends
  have hfirst : step limit ⟨scopes, none⟩ h.first = _ := step_desc h.declares
  rw [Part.ofDeclaration_eq] at hfirst
  by_cases hopen : '\x7b' ∈ h.first ∨ endsIn ',' (trim h.first) = true
  · rw [if_pos hopen] at hends hfirst
    rw [← Part.ofLines_of_isBraced hends.1]
    exact run_cons_of_eq hfirst (run_header_rest fun n hn => hends.not_of_lt hn)
  · rw [if_neg hopen] at hends hfirst
    rw [Header.lines, hends]
    exact run_cons_of_eq hfirst rfl

/-! ### Lines between the parts -/

theorem run_silent {ls lead : List Text} (h : ∀ l ∈ lead, Line.IsSilent l) :
    run limit ⟨scopes, some ⟨around, ls, .between⟩⟩ lead =
      ([], ⟨scopes, some ⟨around, ls ++ lead, .between⟩⟩) := by
  induction lead generalizing ls with
  | nil =>
    rw [List.append_nil]
    rfl
  | cons l lead ih =>
    have hstep : step limit ⟨scopes, some ⟨around, ls, .between⟩⟩ l =
        (none, ⟨scopes, some ⟨around, ls ++ [l], .between⟩⟩) := by
      show between limit scopes ⟨around, ls, .between⟩ l = _
      rw [between]
      simp only [Line.isSilent_of_isSilent (h l List.mem_cons_self), if_true]
      rfl
    have hlead := @ih (ls ++ [l]) fun k hk => h k (List.mem_cons_of_mem _ hk)
    rw [List.append_assoc] at hlead
    exact run_cons_of_eq hstep hlead

/-! ### Bodies -/

section Body
variable (closed : List Text → Option Block) (after : List Text → Reading)

/-- Lines of a body that leave levels open. -/
theorem run_inside {part : Int → Part} (hopen : ∀ n ls l, 0 < n + Keyword.depthChange l →
      step limit ⟨scopes, some ⟨around, ls, part n⟩⟩ l =
        (none, ⟨scopes, some ⟨around, ls ++ [l], part (n + Keyword.depthChange l)⟩⟩))
    {n : Int} (before : List Text) {ls : List Text} (h : ∀ m ≤ ls.length, 0 < n + levels (ls.take m)) :
    run limit ⟨scopes, some ⟨around, before, part n⟩⟩ ls =
      ([], ⟨scopes, some ⟨around, before ++ ls, part (n + levels ls)⟩⟩) := by
  -- Each line is moved over to `before`, and its change to `n`.
  induction ls generalizing n before with
  | nil =>
    rw [List.append_nil, levels, List.map_nil, List.sum_nil, Int.add_zero]
    rfl
  | cons l ls ih =>
    have hlevels : ∀ ms, n + levels (l :: ms) = n + Keyword.depthChange l + levels ms := fun ms => by
      rw [levels_cons, Int.add_assoc]
    have hpos : 0 < n + Keyword.depthChange l := by simpa [levels] using h 1 (by simp)
    have hrest := ih (before ++ [l]) fun m hm => by
      rw [← hlevels, ← List.take_succ_cons]
      exact h (m + 1) (Nat.succ_le_succ hm)
    rw [List.append_assoc, ← hlevels] at hrest
    exact run_cons_of_eq (hopen n before l hpos) hrest

/-- The lines of a body behind the one that opens it. What the last one does is told by `closed` and
    `after`. -/
theorem run_body {part : Int → Part} (hopen : ∀ n ls l, 0 < n + Keyword.depthChange l →
      step limit ⟨scopes, some ⟨around, ls, part n⟩⟩ l =
        (none, ⟨scopes, some ⟨around, ls ++ [l], part (n + Keyword.depthChange l)⟩⟩))
    (hclose : ∀ n ls l, n + Keyword.depthChange l ≤ 0 →
      step limit ⟨scopes, some ⟨around, ls, part n⟩⟩ l = (closed (ls ++ [l]), after (ls ++ [l])))
    (before : List Text) {first : Text} {rest : List Text} (hfirst : 0 < Keyword.depthChange first)
    (hends : FirstAtEnd IsBalanced (first :: rest)) :
    run limit ⟨scopes, some ⟨around, before ++ [first], part (Keyword.depthChange first)⟩⟩ rest =
      ((closed (before ++ first :: rest)).toList, after (before ++ first :: rest)) := by
  obtain ⟨init, last, rfl, hinit⟩ := hends.exists_concat (Int.not_le.mpr (levels_singleton first ▸ hfirst))
  have hinside : ∀ m ≤ init.length, 0 < Keyword.depthChange first + levels (init.take m) := fun m hm => by
    rw [← levels_cons]
    exact Int.not_le.mp (hinit m hm)
  have hbalanced : Keyword.depthChange first + levels init + Keyword.depthChange last ≤ 0 := by
    rw [Int.add_assoc, ← levels_concat, ← levels_cons]
    exact hends.1
  have hlast := hclose _ (before ++ [first] ++ init) last hbalanced
  have hrun := run_append_of_eq (run_inside hopen (before ++ [first]) hinside)
    (run_cons_of_eq hlast (rfl : run limit _ [] = ([], _)))
  simpa using hrun

end Body

theorem step_params {n : Int} {ls : List Text} (l : Text) :
    step limit ⟨scopes, some ⟨around, ls, .params n⟩⟩ l = (none, ⟨scopes, some ⟨around, ls ++ [l],
      if n + Keyword.depthChange l ≤ 0 then .between else .params (n + Keyword.depthChange l)⟩⟩) := rfl

theorem step_handler {n : Int} {ls : List Text} (l : Text) :
    step limit ⟨scopes, some ⟨around, ls, .handler n⟩⟩ l =
      if n + Keyword.depthChange l ≤ 0 then
        (some ⟨.description, around, trim (joinWith "\n" (ls ++ [l]))⟩, ⟨scopes, none⟩)
      else (none, ⟨scopes, some ⟨around, ls ++ [l], .handler (n + Keyword.depthChange l)⟩⟩) := rfl

theorem opensBody?_of_pos {l : Text} (h : 0 < Keyword.depthChange l) :
    Line.opensBody? l = some (Keyword.depthChange l) := by
  rw [Line.opensBody?]
  exact if_pos h

theorem opensBody?_of_not_pos {l : Text} (h : ¬ 0 < Keyword.depthChange l) : Line.opensBody? l = none := by
  rw [Line.opensBody?]
  exact if_neg h

theorem step_isParams {ls : List Text} {l : Text} (h : Line.IsParams l) (hopen : 0 < Keyword.depthChange l) :
    step limit ⟨scopes, some ⟨around, ls, .between⟩⟩ l =
      (none, ⟨scopes, some ⟨around, ls ++ [l], .params (Keyword.depthChange l)⟩⟩) := by
  show between limit scopes ⟨around, ls, .between⟩ l = _
  rw [between]
  simp only [Line.isSilent_of_isParams h, Line.opensParams_of_isParams h, Bool.false_eq_true, if_false, if_true,
    opensBody?_of_pos hopen]
  rfl

theorem run_params (p : Params) (ls : List Text) :
    run limit ⟨scopes, some ⟨around, ls, .between⟩⟩ p.lines =
      ([], ⟨scopes, some ⟨around, ls ++ p.lines, .between⟩⟩) := by
  have hlead : run limit ⟨scopes, some ⟨around, ls, .between⟩⟩ p.lead = _ := run_silent p.silent
  have hfirst : step limit ⟨scopes, some ⟨around, ls ++ p.lead, .between⟩⟩ p.first = _ :=
    step_isParams p.params p.opens
  have hrest : run limit ⟨scopes, some ⟨around, (ls ++ p.lead) ++ [p.first], .params _⟩⟩ p.rest = _ :=
    run_body (fun _ => none) (fun ls => ⟨scopes, some ⟨around, ls, .between⟩⟩)
      (fun n ks l hn => by rw [step_params, if_neg (Int.not_le.mpr hn)])
      (fun n ks l hn => by rw [step_params, if_pos hn]) (ls ++ p.lead) p.opens p.ends
  have hrun := run_append_of_eq hlead (run_cons_of_eq hfirst hrest)
  rw [List.append_assoc] at hrun
  exact hrun

theorem step_isVerb {ls : List Text} {l : Text} (h : Line.IsVerb l) :
    step limit ⟨scopes, some ⟨around, ls, .between⟩⟩ l =
      if 0 < Keyword.depthChange l then
        (none, ⟨scopes, some ⟨around, ls ++ [l], .handler (Keyword.depthChange l)⟩⟩)
      else (some ⟨.description, around, trim (joinWith "\n" (ls ++ [l]))⟩, ⟨scopes, none⟩) := by
  show between limit scopes ⟨around, ls, .between⟩ l = _
  rw [between]
  simp only [Line.isSilent_of_isVerb h, Line.opensParams_of_isVerb h, Line.handlerMethod?_of_isVerb h,
    Bool.false_eq_true, if_false, if_true]
  by_cases hopen : 0 < Keyword.depthChange l
  · rw [opensBody?_of_pos hopen, if_pos hopen]
    rfl
  · rw [opensBody?_of_not_pos hopen, if_neg hopen]
    rfl

/-- The handler ends its block, with its last line or with its only one. -/
theorem run_handler (h : Handler) (ls : List Text) :
    run limit ⟨scopes, some ⟨around, ls, .between⟩⟩ h.lines =
      ([⟨.description, around, trim (joinWith "\n" (ls ++ h.lines))⟩], ⟨scopes, none⟩) := by
  have hlead : run limit ⟨scopes, some ⟨around, ls, .between⟩⟩ h.lead = _ := run_silent h.silent
  have hfirst : step limit ⟨scopes, some ⟨around, ls ++ h.lead, .between⟩⟩ h.first = _ := step_isVerb h.verb
  by_cases hopen : 0 < Keyword.depthChange h.first
  · rw [if_pos hopen] at hfirst
    have hrest : run limit ⟨scopes, some ⟨around, (ls ++ h.lead) ++ [h.first], .handler _⟩⟩ h.rest = _ :=
      run_body (fun ls => some ⟨.description, around, trim (joinWith "\n" ls)⟩) (fun _ => ⟨scopes, none⟩)
        (fun n ks l hn => by rw [step_handler, if_neg (Int.not_le.mpr hn)])
        (fun n ks l hn => by rw [step_handler, if_pos hn]) (ls ++ h.lead) hopen h.ends
    have hrun := run_append_of_eq hlead (run_cons_of_eq hfirst hrest)
    rw [List.append_assoc] at hrun
    exact hrun
  · -- The first line is balanced already, so that no other one follows.
    rw [if_neg hopen] at hfirst
    have hrest : h.rest = [] := by
      by_contra hne
      have hnot := h.ends.not_of_lt (List.length_pos_of_ne_nil hne)
      rw [List.take_zero, IsBalanced, levels_singleton] at hnot
      exact hopen (Int.not_le.mp hnot)
    have hrun := run_append_of_eq hlead (run_cons_of_eq hfirst (rfl : run limit _ [] = ([], _)))
    rw [Handler.lines, hrest]
    rw [List.append_assoc] at hrun
    exact hrun

/-! ### Endpoints and documents -/

/-- The lines before the handler. -/
theorem run_front (h : Header) (p : Option Params) : run limit ⟨scopes, none⟩ (h.lines ++ p.elim [] Params.lines) =
    ([], ⟨scopes, some ⟨scopes.reverse, h.lines ++ p.elim [] Params.lines, .between⟩⟩) := by
  have hparams : run limit ⟨scopes, some ⟨scopes.reverse, h.lines, .between⟩⟩ (p.elim [] Params.lines) =
      ([], ⟨scopes, some ⟨scopes.reverse, h.lines ++ p.elim [] Params.lines, .between⟩⟩) := by
    cases p with
    | none =>
      rw [Option.elim, List.append_nil]
      rfl
    | some p => exact run_params p h.lines
  exact run_append_of_eq (run_header h) hparams

theorem run_item (i : Item) : run limit ⟨scopes, none⟩ i.lines = ([i.block scopes.reverse], ⟨scopes, none⟩) :=
  run_append_of_eq (run_front i.header i.params) (run_handler i.handler _)

theorem step_silent {l : Text} (h : Line.IsSilent l) : step limit ⟨scopes, none⟩ l = (none, ⟨scopes, none⟩) := by
  rw [step_of_none rfl, outside, Line.scopeName?_of_isSilent h]
  dsimp only
  rw [if_neg (Line.ne_end_of_isSilent h), if_neg (by simp [Line.isDeclaration_of_isSilent h])]

theorem step_opening {l name : Text} (h : Line.IsOpening l name) :
    step limit ⟨scopes, none⟩ l = (none, ⟨name :: scopes, none⟩) := by
  rw [step_of_none rfl, outside, Line.scopeName?_of_isOpening h]

theorem step_closing (scopes : List Text) {l : Text} (h : Line.IsClosing limit l) :
    step limit ⟨scopes, none⟩ l = (none, ⟨scopes.tail, none⟩) := by
  rw [step_of_none rfl, outside, Line.scopeName?_of_isClosing h]
  dsimp only
  rw [if_pos h.1, if_pos h.2]

/-- The lines of a document leave the open resources as they were. -/
theorem run_forest (f : Forest limit) (scopes : List Text) : run limit ⟨scopes, none⟩ f.lines =
    ((f.items scopes.reverse).map fun p => p.2.block p.1, ⟨scopes, none⟩) := by
  -- The name of a resource is open while its inside is read, and its `end` takes it away again.
  induction f generalizing scopes with
  | nil => rfl
  | silent line hline rest ih => exact run_cons_of_eq (step_silent hline) (ih scopes)
  | item i rest ih => exact run_append_of_eq (run_item i) (ih scopes)
  | resource name opening closing hopening hclosing inside rest ihinside ihrest =>
    have hinside := ihinside (name :: scopes)
    rw [List.reverse_cons] at hinside
    have hrest := run_cons_of_eq (step_closing (name :: scopes) hclosing) (ihrest scopes)
    rw [Forest.items, List.map_append]
    exact run_cons_of_eq (step_opening hopening) (run_append_of_eq hinside hrest)

end Reading

/-- The blocks of a document are its endpoints, in order: the text of each one is its lines, and its context
    is the path of the resources around it. -/
theorem blocks_forest {limit : Nat} (f : Forest limit) (plain : ∀ l ∈ f.lines, IsPlainLine l) :
    blocks limit (joinWith "\n" f.lines) = (f.items []).map (fun p => p.2.block p.1) ∧
    (blocks limit (joinWith "\n" f.lines)).map Block.context = (f.items []).map fun p => contextPath p.1 := by
  have hblocks : blocks limit (joinWith "\n" f.lines) = (f.items []).map fun p => p.2.block p.1 := by
    rw [Reading.blocks_joinWith plain, Reading.start, Reading.run_forest]
    exact List.append_nil _
  refine ⟨hblocks, ?_⟩
  rw [hblocks, List.map_map]
  rfl

/-- A resource with one endpoint in it whose literal and bodies look like other lines, and an endpoint
    behind it that has neither. -/
theorem blocks_of_nested_document :
    let inner : Item :=
      { header := ⟨"  desc 'List', \x7b", ["    desc 'end',", "  \x7d"], ⟨_, rfl⟩, by decide +kernel⟩
        params := some ⟨[""], "  params do", ["    get :id", "  end"], by decide +kernel,
          ⟨" ", [], rfl, by decide, List.all_eq_true.mp rfl, rfl⟩, by decide +kernel, by decide +kernel⟩
        handler := ⟨["  # handler"], "  get '/list' do", ["    resource :x do", "    end", "  end"],
          by decide +kernel, ⟨.get, _, rfl, rfl⟩, by decide +kernel⟩ }
    let outer : Item :=
      { header := ⟨"desc 'Add'", [], ⟨_, rfl⟩, by decide +kernel⟩
        params := none
        handler := ⟨[], "post '/add'", [], by decide +kernel, ⟨.post, _, rfl, rfl⟩, by decide +kernel⟩ }
    let document : Forest 2 :=
      .resource "shop" "resource :shop do" "end" ⟨rfl, by decide, List.all_eq_true.mp rfl⟩ ⟨rfl, by decide⟩
        (.item inner .nil) (.silent "" (by decide +kernel) (.item outer .nil))
    (∀ l ∈ document.lines, IsPlainLine l) ∧
      (blocks 2 (joinWith "\n" document.lines)).map (fun b => (b.context, b.text)) =
        [(some ("shop" : Text), trim (joinWith "\n" inner.lines)), (none, ("desc 'Add'\npost '/add'" : Text))] := by
  intro inner outer document
  have plain : ∀ l ∈ document.lines, IsPlainLine l := by decide +kernel
  refine ⟨plain, ?_⟩
  rw [(blocks_forest document plain).1]
  rfl

end EndpointAtlas.Description
