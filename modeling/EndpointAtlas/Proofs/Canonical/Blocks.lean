import EndpointAtlas.Proofs.Block.Document
import EndpointAtlas.Proofs.Canonical.Lines

/-! The blocks of a canonical routing file. A canonical declaration is an endpoint of a document, since each
    of its three parts leaves braces or bodies open up to its last line and none behind it. -/

namespace EndpointAtlas.Canonical
open Text Description

/-! ### Sums that stay positive -/

/-- `n` and the sums of it with the first numbers of the list are positive. -/
def StaysPositive (n : Int) : List Int → Prop
  | [] => 0 < n
  | k :: ks => 0 < n ∧ StaysPositive (n + k) ks

theorem staysPositive_append {n : Int} {ks ms : List Int} (h : StaysPositive n ks)
    (h' : StaysPositive (n + ks.sum) ms) : StaysPositive n (ks ++ ms) := by
  induction ks generalizing n with
  | nil => simpa using h'
  | cons k ks ih =>
    rw [List.sum_cons, ← Int.add_assoc] at h'
    exact ⟨h.1, ih h.2 h'⟩

theorem StaysPositive.take_sum {n : Int} {ks : List Int} (h : StaysPositive n ks) (m : Nat) :
    0 < n + (ks.take m).sum := by
  induction ks generalizing n m with
  | nil => simpa [StaysPositive] using h
  | cons k ks ih =>
    cases m with
    | zero => simpa using h.1
    | succ m =>
      rw [List.take_succ_cons, List.sum_cons, ← Int.add_assoc]
      exact ih h.2 m

/-- Where a property of lines says that their weights do not add up to more than zero, they have it first at
    the end if the sum stays positive before. -/
theorem firstAtEnd_of_staysPositive {p : List Text → Prop} {w : Text → Int} {first last : Text} {init : List Text}
    (hp : ∀ ls, p (first :: ls) ↔ w first + (ls.map w).sum ≤ 0) (hopen : StaysPositive (w first) (init.map w))
    (hlast : w first + (init.map w).sum + w last ≤ 0) : FirstAtEnd p (first :: (init ++ [last])) := by
  refine ⟨?_, fun n hn hpos => ?_⟩
  · rw [hp]
    simpa [← Int.add_assoc] using hlast
  · obtain ⟨n, rfl⟩ : ∃ m, n = m + 1 := ⟨n - 1, by omega⟩
    have hle : n ≤ init.length := by
      simp only [List.length_cons, List.length_append, List.length_nil] at hn
      omega
    have hsum := hopen.take_sum n
    rw [List.take_succ_cons, List.take_append_of_le_length hle, hp, List.map_take]
    omega

/-! ### The parts of a declaration -/

theorem sum_map_braces (ls : List Text) : (ls.map braces).sum = braces ls.flatten := by
  induction ls with
  | nil => rfl
  | cons l ls ih => rw [List.map_cons, List.sum_cons, ih, List.flatten_cons, braces_append]

theorem isBraced_iff {first : Text} (h : '\x7b' ∈ first) (ls : List Text) :
    IsBraced (first :: ls) ↔ braces first + (ls.map braces).sum ≤ 0 := by
  have hmem : '\x7b' ∈ (first :: ls).flatten := List.mem_append_left _ h
  rw [sum_map_braces, ← braces_append, ← List.flatten_cons, IsBraced, and_iff_right hmem]
  simp only [braces, Line.braceChange]
  omega

theorem isBalanced_iff (first : Text) (ls : List Text) :
    IsBalanced (first :: ls) ↔ Keyword.depthChange first + (ls.map Keyword.depthChange).sum ≤ 0 := by
  rw [IsBalanced, levels, List.map_cons, List.sum_cons]

theorem staysPositive_headers (hs : List Header) {n : Int} (hn : 0 < n) :
    StaysPositive n ((hs.flatMap Header.lines).map braces) ∧ ((hs.flatMap Header.lines).map braces).sum = 0 := by
  induction hs with
  | nil => exact ⟨hn, rfl⟩
  | cons h hs ih =>
    rw [List.flatMap_cons, List.map_append, h.map_braces]
    refine ⟨⟨hn, by omega, by omega, ?_⟩, ?_⟩
    · have hsum : n + 1 + 0 + -1 = n := by omega
      rw [hsum]
      exact ih.1
    · rw [List.sum_append, ih.2]
      rfl

theorem staysPositive_params (ps : List Param) :
    StaysPositive 1 ((ps.map Param.line).map Keyword.depthChange) ∧
      ((ps.map Param.line).map Keyword.depthChange).sum = 0 := by
  induction ps with
  | nil => exact ⟨Int.one_pos, rfl⟩
  | cons p ps ih =>
    rw [List.map_cons, List.map_cons, p.depthChange_line]
    exact ⟨⟨Int.one_pos, ih.1⟩, by rw [List.sum_cons, ih.2]; rfl⟩

namespace Declaration
variable (d : Declaration)

theorem trim_title (n : Nat) : trim (indented n d.titleContent) = d.titleContent := by
  have hlast : EndsUnblank ("', \x7b" : Text) := ⟨"', ", '\x7b', rfl, rfl⟩
  have hfirst : ∀ c ∈ d.titleContent.head?, isBlank c = false := by
    unfold titleContent
    exact head?_cons_eq_false isBlank rfl _
  rw [trim_indented]
  exact trim_of_endsUnblank hfirst (hlast.append _)

theorem trim_verb (n : Nat) : trim (indented n d.verbContent) = d.verbContent := by
  have hlast : EndsUnblank (" do" : Text) := ⟨" d", 'o', rfl, rfl⟩
  have hfirst : ∀ c ∈ d.verbContent.head?, isBlank c = false := by
    unfold verbContent HttpMethod.verb
    cases d.method <;> exact head?_cons_eq_false isBlank rfl _
  rw [trim_indented]
  exact trim_of_endsUnblank hfirst (hlast.append _)

theorem isDesc_title (n : Nat) : Line.IsDesc (indented n d.titleContent) := by
  refine ⟨'\'' :: (d.title.text ++ "', \x7b"), ?_⟩
  rw [d.trim_title]
  unfold titleContent
  rw [List.append_assoc]
  rfl

theorem brace_mem_title (n : Nat) : '\x7b' ∈ indented n d.titleContent := by
  unfold titleContent
  exact List.mem_append_right _ (List.mem_append_right _ (by decide))

theorem headerLines_eq : d.headerLines = (indented (d.indent 1) "headers: \x7b" :: d.headers.flatMap Header.lines ++
    [indented (d.indent 2) "\x7d"]) ++ [indented (d.indent 3) "\x7d"] := by
  rw [headerLines, List.append_assoc]
  rfl

theorem firstAtEnd_header : FirstAtEnd IsBraced (indented (d.indent 0) d.titleContent :: d.headerLines) := by
  have hopen : braces "headers: \x7b" = 1 := by decide
  have hclose : braces "\x7d" = -1 := by decide
  obtain ⟨hheaders, hsum⟩ := staysPositive_headers d.headers (n := 2) (by decide)
  rw [headerLines_eq]
  refine firstAtEnd_of_staysPositive (isBraced_iff (d.brace_mem_title _)) ?_ ?_
  · rw [d.braces_title, List.map_append, List.map_cons, braces_indented, hopen]
    refine ⟨Int.one_pos, staysPositive_append hheaders ?_⟩
    rw [hsum, List.map_singleton, braces_indented, hclose]
    exact ⟨by decide, Int.one_pos⟩
  · rw [d.braces_title, List.map_append, List.map_cons, List.sum_append, List.sum_cons, hsum, List.map_singleton,
      braces_indented, braces_indented, braces_indented, hopen, hclose]
    decide

/-- The header of the declared endpoint. -/
def header : Description.Header where
  first := indented (d.indent 0) d.titleContent
  rest := d.headerLines
  declares := d.isDesc_title _
  ends := by
    rw [if_pos (Or.inl (d.brace_mem_title _))]
    exact d.firstAtEnd_header

theorem firstAtEnd_params : FirstAtEnd IsBalanced (indented (d.indent 4) "params do" ::
    (d.params.map Param.line ++ [indented (d.indent 5) "end"])) := by
  obtain ⟨hparams, hsum⟩ := staysPositive_params d.params
  refine firstAtEnd_of_staysPositive (isBalanced_iff _) ?_ ?_
  · rw [depthChange_params]
    exact hparams
  · rw [depthChange_params, hsum, depthChange_end]
    decide

theorem isParams_params (n : Nat) : Line.IsParams (indented n "params do") := by
  refine ⟨" ", [], ?_, by decide, List.all_eq_true.mp rfl, rfl⟩
  rw [trim_indented]
  decide

/-- The parameters of the declared endpoint. -/
def paramsPart : Description.Params where
  lead := []
  first := indented (d.indent 4) "params do"
  rest := d.params.map Param.line ++ [indented (d.indent 5) "end"]
  silent := List.forall_mem_nil Line.IsSilent
  params := isParams_params _
  opens := by
    rw [depthChange_params]
    exact Int.one_pos
  ends := d.firstAtEnd_params

theorem isVerb_verb (n : Nat) : Line.IsVerb (indented n d.verbContent) := by
  refine ⟨d.method, " :" ++ d.route.text ++ " do", ?_, rfl⟩
  rw [d.trim_verb]
  unfold verbContent
  simp only [List.append_assoc]

theorem firstAtEnd_handler : FirstAtEnd IsBalanced (indented (d.indent 6) d.verbContent ::
    ([indented (d.indent 7) d.clientContent, indented (d.indent 8) d.callContent] ++
      [indented (d.indent 9) "end"])) := by
  refine firstAtEnd_of_staysPositive (isBalanced_iff _) ?_ ?_
  · rw [d.depthChange_verb, List.map_cons, List.map_singleton, d.depthChange_client, d.depthChange_call]
    exact ⟨Int.one_pos, Int.one_pos, Int.one_pos⟩
  · rw [d.depthChange_verb, List.map_cons, List.map_singleton, d.depthChange_client, d.depthChange_call,
      depthChange_end]
    decide

/-- The handler of the declared endpoint. -/
def handler : Description.Handler where
  lead := []
  first := indented (d.indent 6) d.verbContent
  rest := [indented (d.indent 7) d.clientContent, indented (d.indent 8) d.callContent, indented (d.indent 9) "end"]
  silent := List.forall_mem_nil Line.IsSilent
  verb := d.isVerb_verb _
  ends := d.firstAtEnd_handler

/-- The declaration as an endpoint of a document. -/
def item : Item := ⟨d.header, some d.paramsPart, d.handler⟩

theorem lines_item : d.item.lines = d.lines := rfl

end Declaration

/-! ### Documents -/

theorem Name.isOpening (name : Name) (n : Nat) :
    Line.IsOpening (indented n ("resource :" ++ name.text ++ " do")) name.text := by
  have hlast : EndsUnblank (" do" : Text) := ⟨" d", 'o', rfl, rfl⟩
  refine ⟨?_, name.ne_nil, fun c hc => isWordChar_of_isIdentChar (name.chars c hc)⟩
  rw [trim_indented]
  exact trim_of_endsUnblank (head?_cons_eq_false isBlank rfl _) (hlast.append _)

theorem indentWidth_indented (n : Nat) : Line.indentWidth (indented n "end") = n := by
  induction n with
  | zero => rfl
  | succ n ih =>
    show 1 + Line.indentWidth (indented n "end") = n + 1
    rw [ih, Nat.add_comm]

theorem isClosing_end {limit n : Nat} (h : n ≤ limit) : Line.IsClosing limit (indented n "end") := by
  refine ⟨?_, by rwa [indentWidth_indented]⟩
  rw [trim_indented]
  decide

theorem isSilent_blank (n : Nat) : Line.IsSilent (indented n []) := by
  refine Or.inl ?_
  rw [trim_indented]
  rfl

namespace Document
variable {limit : Nat}

/-- The document as a forest of endpoints. -/
def forest : Document limit → Forest limit
  | nil => .nil
  | blank indent rest => .silent (indented indent []) (isSilent_blank indent) rest.forest
  | unit d rest => .item d.item rest.forest
  | resource name opening closing hclosing inside rest =>
    .resource name.text (indented opening ("resource :" ++ name.text ++ " do")) (indented closing "end")
      (name.isOpening opening) (isClosing_end hclosing) inside.forest rest.forest

theorem lines_forest (f : Document limit) : f.forest.lines = f.lines := by
  induction f with
  | nil => rfl
  | blank indent rest ih => rw [forest, Forest.lines, lines, ih]
  | unit d rest ih => rw [forest, Forest.lines, lines, ih, d.lines_item]
  | resource name opening closing hclosing inside rest ihinside ihrest =>
    rw [forest, Forest.lines, lines, ihinside, ihrest]

theorem items_forest (f : Document limit) (scopes : List Text) :
    f.forest.items scopes = (f.declarations scopes).map fun (around, d) => (around, d.item) := by
  induction f generalizing scopes with
  | nil => rfl
  | blank indent rest ih => exact ih scopes
  | unit d rest ih => rw [forest, Forest.items, declarations, ih, List.map_cons]
  | resource name opening closing hclosing inside rest ihinside ihrest =>
    rw [forest, Forest.items, declarations, ihinside, ihrest, List.map_append]

theorem isPlainLine_of_mem_lines (f : Document limit) : ∀ l ∈ f.lines, IsPlainLine l := by
  induction f with
  | nil => exact fun l hl => by cases hl
  | blank indent rest ih =>
    have hblank : IsOver [] (indented indent []) := IsOver.indented _ fun c hc => by cases hc
    exact List.forall_mem_cons.mpr ⟨hblank.isPlainLine (by decide) (by decide), ih⟩
  | unit d rest ih => exact List.forall_mem_append.mpr ⟨d.isPlainLine_of_mem_lines, ih⟩
  | resource name opening closing hclosing inside rest ihinside ihrest =>
    have hopening : IsOver ":" (indented opening ("resource :" ++ name.text ++ " do")) :=
      .indented _ (.append (.append (by decide) name.isOver) (by decide))
    have hend : IsOver [] (indented closing "end") := .indented _ (by decide)
    exact List.forall_mem_append.mpr
      ⟨List.forall_mem_cons.mpr ⟨hopening.isPlainLine (by decide) (by decide), ihinside⟩,
        List.forall_mem_cons.mpr ⟨hend.isPlainLine (by decide) (by decide), ihrest⟩⟩

/-- The blocks of a document are its declarations. -/
theorem blocks_joinWith_lines (f : Document limit) : blocks limit (joinWith "\n" f.lines) =
    (f.declarations []).map fun (scopes, d) => ⟨.description, scopes, trim (joinWith "\n" d.lines)⟩ := by
  rw [Reading.blocks_joinWith f.isPlainLine_of_mem_lines, Reading.start, ← f.lines_forest, Reading.run_forest,
    List.reverse_nil, items_forest, List.map_map]
  exact List.append_nil _

end Document

end EndpointAtlas.Canonical
