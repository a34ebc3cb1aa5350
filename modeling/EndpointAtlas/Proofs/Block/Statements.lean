import EndpointAtlas.Proofs.Block.Nesting
import EndpointAtlas.Proofs.Keyword.Shape

/-! Handlers with bodies in their bodies. Statements leave open as many levels as they find, and on the way at
    least that many are open; so a handler ends with its own `end`, however deep the bodies in it are. -/

namespace EndpointAtlas.Description
open Text

/-- Statements one after the other. Each of them is a line, or a body with statements in it. -/
inductive Statements where
  | nil
  | line (l : Text) (hl : Keyword.IsSimple l) (rest : Statements)
  | body (opening closing : Text) (hopening : Keyword.Opens opening) (hclosing : trim closing = "end")
      (inside rest : Statements)

/-- The lines of statements. -/
def Statements.lines : Statements → List Text
  | nil => []
  | line l _ rest => l :: rest.lines
  | body opening closing _ _ inside rest => opening :: (inside.lines ++ closing :: rest.lines)

/-- The body of a handler, from the line with its verb to its own `end`. -/
structure Body where
  first : Text
  statements : Statements
  closing : Text
  verb : Line.IsVerb first
  opens : Keyword.Opens first
  closes : trim closing = "end"

/-- The lines of a body. -/
def Body.lines (b : Body) : List Text := b.first :: (b.statements.lines ++ [b.closing])

/-! ### Levels -/

section Levels
variable {ls : List Text} {l : Text}

/-- Behind lines that leave a level open all the way, statements do so as well, and change nothing in the end. -/
theorem Statements.keep_levels (s : Statements) (hopen : Throughout (0 < levels ·) ls) (hpos : 0 < levels ls) :
    Throughout (0 < levels ·) (ls ++ s.lines) ∧ levels (ls ++ s.lines) = levels ls := by
  induction s generalizing ls with
  | nil =>
    rw [lines, List.append_nil]
    exact ⟨hopen, rfl⟩
  | line l hl rest ih =>
    have hsame : levels (ls ++ [l]) = levels ls := by
      rw [levels_concat, Keyword.depthChange_of_isSimple hl, Int.add_zero]
    obtain ⟨hthrough, hlevels⟩ := ih (throughout_concat.mpr ⟨hopen, hsame ▸ hpos⟩) (hsame ▸ hpos)
    rw [lines, List.append_cons]
    exact ⟨hthrough, hlevels.trans hsame⟩
  | body opening closing hopening hclosing inside rest ihinside ihrest =>
    have hup : levels (ls ++ [opening]) = levels ls + 1 := by
      rw [levels_concat, Keyword.depthChange_of_opens hopening]
    have hpos' : 0 < levels (ls ++ [opening]) := by omega
    obtain ⟨hthrough, hinside⟩ := ihinside (throughout_concat.mpr ⟨hopen, hpos'⟩) hpos'
    -- The `end` takes away the level that the opening added.
    have hsame : levels (ls ++ [opening] ++ inside.lines ++ [closing]) = levels ls := by
      rw [levels_concat, hinside, hup, Keyword.depthChange_of_trim_eq_end hclosing]
      omega
    obtain ⟨hrest, hlevels⟩ := ihrest (throughout_concat.mpr ⟨hthrough, hsame ▸ hpos⟩) (hsame ▸ hpos)
    rw [lines, List.append_cons, ← List.append_assoc, List.append_cons]
    exact ⟨hrest, hlevels.trans hsame⟩

end Levels

namespace Body
variable (b : Body)

/-- No level is left open with the last line, and one is before it. -/
theorem firstAtEnd : FirstAtEnd IsBalanced b.lines := by
  have hfirst : levels [b.first] = 1 := by rw [levels_singleton, Keyword.depthChange_of_opens b.opens]
  have hpos : 0 < levels [b.first] := by omega
  obtain ⟨hopen, hlevels⟩ := b.statements.keep_levels (throughout_singleton hpos) hpos
  refine firstAtEnd_concat (fun n hn => Int.not_le.mpr (hopen n hn)) ?_
  rw [IsBalanced, levels_concat, hlevels, hfirst, Keyword.depthChange_of_trim_eq_end b.closes]
  decide

/-- The body as the handler of an endpoint, right behind its header. -/
def handler : Handler where
  lead := []
  first := b.first
  rest := b.statements.lines ++ [b.closing]
  silent := List.forall_mem_nil _
  verb := b.verb
  ends := b.firstAtEnd

end Body

/-- A handler ends with its own `end`, whatever bodies are in it: its endpoint is one block, and the text behind
    it has the blocks that it has alone. -/
theorem blocks_of_nested_body (limit : Nat) (h : Header) (b : Body) {text rest : Text}
    (htext : lines text = h.lines ++ b.lines ++ lines rest) :
    blocks limit text = ⟨.description, [], trim (joinWith "\n" (h.lines ++ b.lines))⟩ :: blocks limit rest := by
  have hitem : Reading.run limit (.start []) (h.lines ++ b.lines) =
      ([⟨.description, [], trim (joinWith "\n" (h.lines ++ b.lines))⟩], .start []) := by
    have hrun : Reading.run limit (.start []) (Item.lines ⟨h, none, b.handler⟩) = _ := Reading.run_item _
    have hlines : Item.lines ⟨h, none, b.handler⟩ = h.lines ++ b.lines := by
      rw [Item.lines, Option.elim, List.append_nil]
      rfl
    rw [Item.block, hlines] at hrun
    exact hrun
  show Reading.blocksFrom limit (.start []) (lines text) = _
  rw [htext, Reading.blocksFrom_append_of_eq hitem]
  rfl

/-- Bodies of each shape in one handler, with modifiers beside them, and another endpoint behind it. -/
theorem blocks_of_handler_in_bodies :
    let each : Keyword.Opens "  xs.each do |x|" :=
      @Keyword.Opens.block "  xs.each" " |x|" (by decide) (by decide) (by rintro c ⟨⟩; rfl)
    let assigned : Keyword.Opens "    y = if x" :=
      @Keyword.Opens.value "    y " " " "if" " x" '=' (by decide) (by decide) (by decide) (by decide) (by decide)
        (by rintro c ⟨⟩; decide)
    let led : Keyword.Opens "      case x" :=
      @Keyword.Opens.statement "      " "case" " x" (by decide) (by decide) (by decide) (by rintro c ⟨⟩; decide)
    let modified : Keyword.IsSimple "        z += 1 while x" :=
      @Keyword.IsSimple.modified "        z += 1" "while" "x" (by decide) (by decide) (by decide) ⟨'1', rfl, by decide⟩
        (by decide)
    let header : Header := ⟨"desc 'T'", [], ⟨_, rfl⟩, by decide +kernel⟩
    let body : Body :=
      { first := "get :x do"
        statements := .body _ "  end" each rfl
          (.body _ "    end" assigned rfl
            (.body _ "      end" led rfl (.line _ modified .nil) .nil)
            (.line "    log(x)" (.plain (by decide)) .nil))
          .nil
        closing := "end"
        verb := ⟨.get, _, rfl, rfl⟩
        opens := @Keyword.Opens.block "get :x" [] (by decide) (by decide) (by rintro c ⟨⟩)
        closes := rfl }
    let rest : Text := "\ndesc 'U'\nget :u do\nend\n"
    let text : Text := joinWith "\n" (header.lines ++ body.lines) ++ "\n" ++ rest
    lines text = header.lines ++ body.lines ++ lines rest ∧
      blocks 4 text = [⟨.description, [], joinWith "\n" (header.lines ++ body.lines)⟩,
        ⟨.description, [], "desc 'U'\nget :u do\nend"⟩] := by
  intro each assigned led modified header body rest text
  have htext : lines text = header.lines ++ body.lines ++ lines rest := by decide +kernel
  refine ⟨htext, ?_⟩
  rw [blocks_of_nested_body 4 header body htext]
  decide +kernel

end EndpointAtlas.Description
