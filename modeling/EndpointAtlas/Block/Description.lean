import EndpointAtlas.Block.Basic
import EndpointAtlas.Block.Line

/-!
# Description blocks

A routing file is read line by line. A description block begins at a line that declares an endpoint
and has four parts: a header, which may hold a braced literal over several lines; lines between the
other parts; blocks of parameters; and the handler, with which it ends. A declaration or a resource line
that is met between the parts also ends it, and so does the end of the file.

The state of the reading is a value (`Reading`), a line takes one to the next (`Reading.step`), and the
blocks that are closed on the way are the answer. The names of open resources decide nothing but the
`scopes` of the blocks. -/

namespace EndpointAtlas.Description

/-- The part of an open block that the next line belongs to. -/
inductive Part where
  /-- In the header's literal: braces open, and whether any brace was opened yet. -/
  | header (braces : Int) (opened : Bool)
  /-- After the header, outside parameters and handler. -/
  | between
  /-- In a block of parameters with so many levels open. -/
  | params (levels : Int)
  /-- In the handler with so many levels open. -/
  | handler (levels : Int)
  deriving DecidableEq, Repr

/-- A block that is still open: the resources around its declaration, outermost first, and its lines
    so far. -/
structure Draft where
  scopes : List Text
  lines : List Text
  part : Part
  deriving DecidableEq, Repr

/-- What reading has come to: the names of the open resources, innermost first, and the open block. -/
structure Reading where
  scopes : List Text
  draft : Option Draft
  deriving DecidableEq, Repr

/-- A header goes on until as many braces are closed as were opened, at least one having been. -/
def Part.ofHeader (braces : Int) (opened : Bool) : Part :=
  if opened && braces ≤ 0 then between else header braces opened

/-- Where a block stands after its first line: a literal may be open, or about to follow a comma. -/
def Part.ofDeclaration (line : Text) : Part :=
  let (braces, opened) := Line.braceChange line
  if opened || Text.endsIn ',' (Text.trim line) then ofHeader braces opened else between

namespace Draft

/-- A line is added and the block stands at `part`. -/
def push (d : Draft) (line : Text) (part : Part) : Draft :=
  { d with lines := d.lines ++ [line], part }

/-- The finished block: its lines without the blanks around them. -/
def close (d : Draft) : Block where
  kind := .description
  scopes := d.scopes
  text := Text.trim (Text.joinWith "\n" d.lines)

end Draft

namespace Reading

/-- Nothing read yet, within the given resources. -/
def start (scopes : List Text) : Reading := ⟨scopes, none⟩

/-- A line outside every block opens a resource, closes one if it is indented by at most `limit`
    columns, opens a block, or has no meaning. -/
def outside (limit : Nat) (scopes : List Text) (line : Text) : Reading :=
  let trimmed := Text.trim line
  match Line.scopeName? trimmed with
  | some name => ⟨name :: scopes, none⟩
  | none =>
    if trimmed = "end" then
      ⟨if Line.indentWidth line ≤ limit then scopes.tail else scopes, none⟩
    else if Line.isDeclaration trimmed then
      ⟨scopes, some ⟨scopes.reverse, [line], Part.ofDeclaration line⟩⟩
    else ⟨scopes, none⟩

/-- A line after the header of an open block. -/
def between (limit : Nat) (scopes : List Text) (d : Draft) (line : Text) : Option Block × Reading :=
  let trimmed := Text.trim line
  if Line.isSilent trimmed then (none, ⟨scopes, some (d.push line .between)⟩)
  else if Line.opensParams trimmed then
    match Line.opensBody? line with
    | some levels => (none, ⟨scopes, some (d.push line (.params levels))⟩)
    | none => (none, ⟨scopes, some (d.push line .between)⟩)
  else if (Line.handlerMethod? trimmed).isSome then
    match Line.opensBody? line with
    | some levels => (none, ⟨scopes, some (d.push line (.handler levels))⟩)
    | none => (some (d.push line .between).close, ⟨scopes, none⟩)
  else if Line.isBoundary trimmed then (some d.close, outside limit scopes line)
  else (none, ⟨scopes, some (d.push line .between)⟩)

/-- One line further: the block that the line closes, if it closes one, and the reading after it. -/
def step (limit : Nat) (r : Reading) (line : Text) : Option Block × Reading :=
  match r.draft with
  | none => (none, outside limit r.scopes line)
  | some d =>
    match d.part with
    | .header braces opened =>
      let (change, seen) := Line.braceChange line
      (none, ⟨r.scopes, some (d.push line (.ofHeader (braces + change) (opened || seen)))⟩)
    | .between => between limit r.scopes d line
    | .params levels =>
      let levels := levels + Keyword.depthChange line
      (none, ⟨r.scopes, some (d.push line (if levels ≤ 0 then .between else .params levels))⟩)
    | .handler levels =>
      let levels := levels + Keyword.depthChange line
      if levels ≤ 0 then (some (d.push line .between).close, ⟨r.scopes, none⟩)
      else (none, ⟨r.scopes, some (d.push line (.handler levels))⟩)

/-- Line after line: the blocks closed on the way, in order, and the reading at the end. -/
def run (limit : Nat) (r : Reading) : List Text → List Block × Reading
  | [] => ([], r)
  | line :: lines =>
    let (closed, next) := step limit r line
    let (blocks, last) := run limit next lines
    (closed.toList ++ blocks, last)

/-- The block that the end of the file closes. -/
def finish (r : Reading) : List Block := (r.draft.map Draft.close).toList

end Reading

/-- The description blocks of a text that is read within the given resources. -/
def blocksWithin (scopes : List Text) (limit : Nat) (text : Text) : List Block :=
  let (blocks, last) := Reading.run limit (.start scopes) (Text.lines text)
  blocks ++ last.finish

/-- The description blocks of a routing file, in order. An `end` that is indented by more than `limit`
    columns closes no resource. -/
def blocks (limit : Nat) (text : Text) : List Block := blocksWithin [] limit text

namespace Reading

/-- Reading two runs of lines is reading the first and then the second. -/
theorem run_append (limit : Nat) (r : Reading) (ls ms : List Text) :
    run limit r (ls ++ ms) =
      ((run limit r ls).1 ++ (run limit (run limit r ls).2 ms).1, (run limit (run limit r ls).2 ms).2) := by
  induction ls generalizing r with
  | nil => simp [run]
  | cons l ls ih => simp [run, ih, List.append_assoc]

end Reading

end EndpointAtlas.Description
