import EndpointAtlas.Proofs.Block.Document
import Mathlib.Data.List.Forall2

/-! An endpoint without a handler in a document. Its block goes on until a line begins another one, so that what
    follows decides whether the document is disturbed. An endpoint or a resource behind it, and the end of the
    text, end it and are read as ever. The `end` of a resource does not: where only silent lines stand before
    that `end`, the block takes it for a line of its own, and the name of the resource stays open for all that
    stands behind. -/

namespace EndpointAtlas.Description
open Text

/-! ### Places in a document -/

/-- An endpoint that has no handler. -/
structure Stub where
  header : Header
  params : Option Params

/-- The lines of an endpoint without a handler. -/
def Stub.lines (u : Stub) : List Text := u.header.lines ++ u.params.elim [] Params.lines

/-- A resource around a place in a document, with what stands before and behind it. -/
structure Around (limit : Nat) where
  before : Forest limit
  name : Text
  opening : Text
  closing : Text
  hopening : Line.IsOpening opening name
  hclosing : Line.IsClosing limit closing
  behind : Forest limit

/-- A place in a document: what stands before and behind it in the same resource, and the resources around
    it, innermost first. -/
structure Position (limit : Nat) where
  before : Forest limit
  behind : Forest limit
  around : List (Around limit)

namespace Forest
variable {limit : Nat}

/-- One document behind another. -/
def append : Forest limit → Forest limit → Forest limit
  | nil, g => g
  | silent line hline rest, g => silent line hline (rest.append g)
  | item i rest, g => item i (rest.append g)
  | resource name opening closing hopening hclosing inside rest, g =>
    resource name opening closing hopening hclosing inside (rest.append g)

/-- An endpoint or a resource stands in it. -/
def hasNode : Forest limit → Bool
  | nil => false
  | silent _ _ rest => rest.hasNode
  | item _ _ => true
  | resource .. => true

/-- The silent lines before the first endpoint or resource. -/
def lead : Forest limit → List Text
  | nil => []
  | silent line _ rest => line :: rest.lead
  | item _ _ => []
  | resource .. => []

end Forest

namespace Around
variable {limit : Nat}

/-- The resource with `f` in it, and what stands beside it. -/
def fill (f : Forest limit) (a : Around limit) : Forest limit :=
  a.before.append (.resource a.name a.opening a.closing a.hopening a.hclosing f a.behind)

/-- The names of the resources, innermost first. -/
def names (as : List (Around limit)) : List Text := as.map Around.name

/-- The lines before what the resources hold, those that open them included. -/
def linesBefore : List (Around limit) → List Text
  | [] => []
  | a :: as => linesBefore as ++ (a.before.lines ++ [a.opening])

/-- The lines behind what the resources hold, those that close them included. -/
def linesBehind : List (Around limit) → List Text
  | [] => []
  | a :: as => a.closing :: (a.behind.lines ++ linesBehind as)

/-- The endpoints before what the resources hold. -/
def itemsBefore : List (Around limit) → List (List Text × Item)
  | [] => []
  | a :: as => itemsBefore as ++ a.before.items (names as).reverse

/-- The endpoints behind `f` and the resources around it, where the names in `scopes` are open before `f`,
    innermost first. -/
def itemsFrom : List Text → Forest limit → List (Around limit) → List (List Text × Item)
  | scopes, f, [] => f.items scopes.reverse
  | scopes, f, a :: as => f.items scopes.reverse ++ itemsFrom scopes.tail a.behind as

/-- The lines behind it that an endpoint without a handler takes. -/
def taken : Forest limit → List (Around limit) → List Text
  | f, [] => f.lead
  | f, a :: as => if f.hasNode then f.lead else f.lead ++ a.closing :: taken a.behind as

/-- How many resources miss their `end` then. -/
def missed : Forest limit → List (Around limit) → Nat
  | _, [] => 0
  | f, a :: as => if f.hasNode then 0 else missed a.behind as + 1

/-- The endpoints behind it as they are read then. -/
def itemsRead : List Text → Forest limit → List (Around limit) → List (List Text × Item)
  | scopes, f, [] => f.items scopes.reverse
  | scopes, f, a :: as => if f.hasNode then itemsFrom scopes f (a :: as) else itemsRead scopes a.behind as

end Around

namespace Position
variable {limit : Nat} (p : Position limit)

/-- The document with nothing at the place. -/
def document : Forest limit := p.around.foldl Around.fill (p.before.append p.behind)

/-- The lines of the document with some more at the place. -/
def lines (inserted : List Text) : List Text :=
  Around.linesBefore p.around ++ (p.before.lines ++ (inserted ++ (p.behind.lines ++ Around.linesBehind p.around)))

/-- The names open at the place, innermost first. -/
def scopes : List Text := Around.names p.around

/-- The endpoints before the place. -/
def itemsBefore : List (List Text × Item) := Around.itemsBefore p.around ++ p.before.items p.scopes.reverse

/-- The endpoints behind the place. -/
def itemsBehind : List (List Text × Item) := Around.itemsFrom p.scopes p.behind p.around

/-- The endpoints behind the place as they are read when one without a handler stands there. -/
def itemsRead : List (List Text × Item) := Around.itemsRead p.scopes p.behind p.around

/-- The lines behind the place that an endpoint without a handler takes there. -/
def taken : List Text := Around.taken p.behind p.around

/-- How many of the resources around the place miss their `end` then. -/
def missed : Nat := Around.missed p.behind p.around

/-- An endpoint or a resource, or the end of the text, comes before the `end` of a resource. -/
def IsFollowed : Prop := p.behind.hasNode = true ∨ p.around = []

end Position

/-! ### The lines of the document -/

section Lines
variable {limit : Nat}

theorem Forest.lines_append (f g : Forest limit) : (f.append g).lines = f.lines ++ g.lines := by
  induction f with
  | nil => rfl
  | silent line hline rest ih =>
    rw [append, lines, ih, lines]
    rfl
  | item i rest ih => rw [append, lines, ih, lines, List.append_assoc]
  | resource name opening closing hopening hclosing inside rest _ ih =>
    rw [append, lines, ih, lines]
    simp only [List.cons_append, List.append_assoc]

theorem Around.lines_foldl_fill (as : List (Around limit)) (f : Forest limit) :
    (as.foldl fill f).lines = linesBefore as ++ (f.lines ++ linesBehind as) := by
  induction as generalizing f with
  | nil => exact (List.append_nil _).symm
  | cons a as ih =>
    rw [List.foldl_cons, ih, fill, Forest.lines_append, Forest.lines, linesBefore, linesBehind]
    simp only [List.cons_append, List.append_assoc, List.nil_append]

theorem Position.lines_document (p : Position limit) : p.document.lines = p.lines [] := by
  rw [document, Around.lines_foldl_fill, Forest.lines_append, List.append_assoc, lines, List.nil_append]

/-! ### Where no endpoint or resource stands -/

theorem Forest.isSilent_of_mem_lead (f : Forest limit) : ∀ l ∈ f.lead, Line.IsSilent l := by
  induction f with
  | silent line hline rest ih => exact List.forall_mem_cons.mpr ⟨hline, ih⟩
  | nil | item | resource => exact fun _ hl => nomatch hl

theorem Forest.eq_of_not_hasNode {f : Forest limit} (h : ¬ f.hasNode = true) :
    f.lines = f.lead ∧ ∀ scopes, f.items scopes = [] := by
  induction f with
  | nil => exact ⟨rfl, fun _ => rfl⟩
  | silent line hline rest ih =>
    obtain ⟨hlines, hitems⟩ := ih h
    exact ⟨congrArg (line :: ·) hlines, hitems⟩
  | item | resource => exact absurd rfl h

end Lines

/-! ### Reading behind the place -/

namespace Reading
variable {limit : Nat} {scopes around ls : List Text}

theorem run_before (as : List (Around limit)) : run limit (start []) (Around.linesBefore as) =
    ((Around.itemsBefore as).map fun q => q.2.block q.1, ⟨Around.names as, none⟩) := by
  induction as with
  | nil => rfl
  | cons a as ih =>
    have hopening : run limit ⟨Around.names as, none⟩ [a.opening] = ([], ⟨Around.names (a :: as), none⟩) :=
      run_cons_of_eq (step_opening a.hopening) rfl
    have hbefore := run_append_of_eq (run_forest a.before (Around.names as)) hopening
    rw [List.append_nil] at hbefore
    rw [Around.itemsBefore, List.map_append]
    exact run_append_of_eq ih hbefore

theorem blocksFrom_behind (f : Forest limit) (as : List (Around limit)) (scopes : List Text) :
    blocksFrom limit ⟨scopes, none⟩ (f.lines ++ Around.linesBehind as) =
      (Around.itemsFrom scopes f as).map fun q => q.2.block q.1 := by
  induction as generalizing f scopes with
  | nil =>
    rw [blocksFrom_append_of_eq (run_forest f scopes)]
    exact List.append_nil _
  | cons a as ih =>
    rw [blocksFrom_append_of_eq (run_forest f scopes), Around.linesBehind,
      blocksFrom_cons_of_eq (step_closing scopes a.hclosing), ih, Around.itemsFrom, List.map_append]

theorem step_closing_between {l : Text} (h : Line.IsClosing limit l) :
    step limit ⟨scopes, some ⟨around, ls, .between⟩⟩ l =
      (none, ⟨scopes, some ⟨around, ls ++ [l], .between⟩⟩) := by
  obtain ⟨hsilent, hparams, hverb, hbound⟩ := Line.unasked_of_isClosing h
  show between limit scopes ⟨around, ls, .between⟩ l = _
  rw [between]
  simp only [hsilent, hparams, hverb, hbound, Option.isSome_none, Bool.false_eq_true, if_false]
  rfl

/-- An open block ends before a line that begins another one, and what follows is read as it is without it. -/
theorem blocksFrom_cons_isBoundary {l : Text} (h : Line.IsBoundary l) (more : List Text) :
    blocksFrom limit ⟨scopes, some ⟨around, ls, .between⟩⟩ (l :: more) =
      ⟨.description, around, trim (joinWith "\n" ls)⟩ :: blocksFrom limit ⟨scopes, none⟩ (l :: more) := by
  rw [blocksFrom_cons, step_isBoundary h, blocksFrom_cons, step_of_none rfl]
  rfl

/-- An open block ends before the first endpoint or resource of a document. -/
theorem blocksFrom_open_hasNode {f : Forest limit} (h : f.hasNode = true) (more : List Text) :
    blocksFrom limit ⟨scopes, some ⟨around, ls, .between⟩⟩ (f.lines ++ more) =
      ⟨.description, around, trim (joinWith "\n" (ls ++ f.lead))⟩ ::
        blocksFrom limit ⟨scopes, none⟩ (f.lines ++ more) := by
  induction f generalizing ls with
  | nil => cases h
  | silent line hline rest ih =>
    have hopen : run limit ⟨scopes, some ⟨around, ls, .between⟩⟩ [line] = _ :=
      run_silent (List.forall_mem_singleton.mpr hline)
    -- Outside every block the silent line does nothing, so both sides go on with `rest`.
    have hrest := @ih (ls ++ [line]) h
    rw [List.append_assoc] at hrest
    rw [Forest.lines, List.cons_append, blocksFrom_cons_of_eq (step_silent hline)]
    exact (blocksFrom_append_of_eq hopen _).trans hrest
  | item i rest =>
    rw [Forest.lead, List.append_nil]
    exact blocksFrom_cons_isBoundary (Or.inl i.header.declares) _
  | resource name opening closing hopening =>
    rw [Forest.lead, List.append_nil]
    exact blocksFrom_cons_isBoundary (Line.isBoundary_of_isOpening hopening) _

theorem run_open_not_hasNode {f : Forest limit} (h : ¬ f.hasNode = true) :
    run limit ⟨scopes, some ⟨around, ls, .between⟩⟩ f.lines =
      ([], ⟨scopes, some ⟨around, ls ++ f.lead, .between⟩⟩) := by
  rw [(Forest.eq_of_not_hasNode h).1]
  exact run_silent f.isSilent_of_mem_lead

/-- What an open block takes of the lines behind it, and what is read of the rest. -/
theorem blocksFrom_open (f : Forest limit) (as : List (Around limit)) (ls : List Text) :
    blocksFrom limit ⟨scopes, some ⟨around, ls, .between⟩⟩ (f.lines ++ Around.linesBehind as) =
      ⟨.description, around, trim (joinWith "\n" (ls ++ Around.taken f as))⟩ ::
        (Around.itemsRead scopes f as).map fun q => q.2.block q.1 := by
  induction as generalizing f ls with
  | nil =>
    by_cases hnode : f.hasNode = true
    · rw [blocksFrom_open_hasNode hnode, blocksFrom_behind]
      rfl
    · rw [blocksFrom_append_of_eq (run_open_not_hasNode hnode), Around.itemsRead, (Forest.eq_of_not_hasNode hnode).2]
      rfl
  | cons a as ih =>
    by_cases hnode : f.hasNode = true
    · rw [blocksFrom_open_hasNode hnode, blocksFrom_behind, Around.itemsRead, if_pos hnode, Around.taken, if_pos hnode]
    · -- The block takes the `end` as well, and what is behind the resource is read with its name still open.
      rw [blocksFrom_append_of_eq (run_open_not_hasNode hnode), List.nil_append, Around.linesBehind,
        blocksFrom_cons_of_eq (step_closing_between a.hclosing), ih, Around.itemsRead, if_neg hnode, Around.taken,
        if_neg hnode, List.append_assoc, List.append_assoc]
      rfl

end Reading

/-! ### Reading the document, with the endpoint and without it -/

namespace Position
variable {limit : Nat} (p : Position limit)

theorem lines_subset (inserted : List Text) : p.lines [] ⊆ p.lines inserted := by
  intro l hl
  rw [lines] at hl ⊢
  simp only [List.mem_append, List.not_mem_nil, false_or] at hl ⊢
  exact hl.imp_right fun h => h.imp_right Or.inr

theorem blocks_lines (inserted : List Text) (plain : ∀ l ∈ p.lines inserted, IsPlainLine l) :
    blocks limit (joinWith "\n" (p.lines inserted)) = (p.itemsBefore.map fun q => q.2.block q.1) ++
      Reading.blocksFrom limit ⟨p.scopes, none⟩ (inserted ++ (p.behind.lines ++ Around.linesBehind p.around)) := by
  have hbefore : Reading.run limit (.start []) (Around.linesBefore p.around ++ p.before.lines) =
      (p.itemsBefore.map fun q => q.2.block q.1, ⟨p.scopes, none⟩) := by
    rw [itemsBefore, List.map_append]
    exact Reading.run_append_of_eq (Reading.run_before p.around) (Reading.run_forest p.before p.scopes)
  rw [Reading.blocks_joinWith plain, lines, ← List.append_assoc]
  exact Reading.blocksFrom_append_of_eq hbefore _

theorem blocks_document (plain : ∀ l ∈ p.document.lines, IsPlainLine l) :
    blocks limit (joinWith "\n" p.document.lines) =
      (p.itemsBefore.map fun q => q.2.block q.1) ++ p.itemsBehind.map fun q => q.2.block q.1 := by
  rw [p.lines_document] at plain ⊢
  rw [p.blocks_lines [] plain, List.nil_append, Reading.blocksFrom_behind]
  rfl

theorem blocks_lines_stub (u : Stub) (plain : ∀ l ∈ p.lines u.lines, IsPlainLine l) :
    blocks limit (joinWith "\n" (p.lines u.lines)) = (p.itemsBefore.map fun q => q.2.block q.1) ++
      ⟨.description, p.scopes.reverse, trim (joinWith "\n" (u.lines ++ p.taken))⟩ ::
        p.itemsRead.map fun q => q.2.block q.1 := by
  have hopen : Reading.run limit ⟨p.scopes, none⟩ u.lines = _ := Reading.run_front u.header u.params
  rw [p.blocks_lines u.lines plain, Reading.blocksFrom_append_of_eq hopen, List.nil_append]
  exact congrArg _ (Reading.blocksFrom_open p.behind p.around u.lines)

end Position

/-! ### What the endpoint does to those behind it -/

/-- The characters of the names, with one more behind each. -/
def nameSize : List Text → Nat
  | [] => 0
  | name :: names => name.length + 1 + nameSize names

theorem length_contextPath (names : List Text) :
    (contextPath names).elim 0 (fun path => path.length + 1) = nameSize names := by
  induction names with
  | nil => rfl
  | cons name names ih =>
    rcases names with _ | ⟨next, names⟩
    · rfl
    · have hjoin : contextPath (name :: next :: names) = some (name ++ ['/'] ++ joinWith "/" (next :: names)) :=
        congrArg some (joinWith_cons (List.cons_ne_nil _ _) _ _)
      rw [hjoin, nameSize, ← ih]
      show (name ++ ['/'] ++ joinWith "/" (next :: names)).length + 1 =
        name.length + 1 + ((joinWith "/" (next :: names)).length + 1)
      rw [List.length_append, List.length_append, List.length_singleton, Nat.add_assoc]

theorem nameSize_le_of_sublist {xs ys : List Text} (h : xs.Sublist ys) :
    nameSize xs + ys.length ≤ nameSize ys + xs.length := by
  induction h with
  | slnil => rfl
  | cons name _ ih =>
    simp only [nameSize, List.length_cons]
    omega
  | cons_cons name _ ih =>
    simp only [nameSize, List.length_cons]
    omega

/-- `ys` has all the names of `xs` in their order, and `n` more. -/
def IsLonger (n : Nat) (xs ys : List Text) : Prop := xs.Sublist ys ∧ ys.length = xs.length + n

namespace IsLonger
variable {n : Nat} {xs ys : List Text}

theorem refl (xs : List Text) : IsLonger 0 xs xs := ⟨List.Sublist.refl xs, rfl⟩

theorem reverse (h : IsLonger n xs ys) : IsLonger n xs.reverse ys.reverse := by
  refine ⟨h.1.reverse, ?_⟩
  rw [List.length_reverse, List.length_reverse, h.2]

theorem concat (h : IsLonger n xs ys) (name : Text) : IsLonger n (xs ++ [name]) (ys ++ [name]) := by
  refine ⟨h.1.append_right [name], ?_⟩
  rw [List.length_append, List.length_append, h.2]
  exact Nat.add_right_comm _ _ _

theorem tail (h : IsLonger n xs ys) (hpos : 0 < xs.length) : IsLonger n xs.tail ys.tail := by
  refine ⟨h.1.tail, ?_⟩
  rw [List.length_tail, List.length_tail, h.2]
  omega

theorem tail_left (h : IsLonger n xs ys) (hpos : 0 < xs.length) : IsLonger (n + 1) xs.tail ys := by
  refine ⟨(List.tail_sublist xs).trans h.1, ?_⟩
  rw [List.length_tail, h.2]
  omega

theorem eq_of_zero (h : IsLonger 0 xs ys) : ys = xs := (h.1.eq_of_length h.2.symm).symm

/-- More names make a longer path. -/
theorem contextPath_ne (h : IsLonger n xs ys) (hn : 0 < n) : contextPath ys ≠ contextPath xs := by
  intro heq
  have hsize : nameSize ys = nameSize xs := by rw [← length_contextPath, heq, length_contextPath]
  have hle := nameSize_le_of_sublist h.1
  rw [h.2] at hle
  omega

end IsLonger

/-- The same endpoint, read within `n` more resources. -/
def IsDeeper (n : Nat) (q r : List Text × Item) : Prop := r.2 = q.2 ∧ IsLonger n q.1 r.1

section Deeper
variable {limit n : Nat} {scopes scopes' : List Text}

theorem Forest.items_deeper (f : Forest limit) (h : IsLonger n scopes scopes') :
    List.Forall₂ (IsDeeper n) (f.items scopes) (f.items scopes') := by
  induction f generalizing scopes scopes' with
  | nil => exact .nil
  | silent line hline rest ih => exact ih h
  | item i rest ih => exact .cons ⟨rfl, h⟩ (ih h)
  | resource name opening closing hopening hclosing inside rest ihinside ihrest =>
    exact List.rel_append (ihinside (h.concat name)) (ihrest h)

namespace Around

theorem itemsFrom_deeper (f : Forest limit) (as : List (Around limit)) (hlong : as.length ≤ scopes.length)
    (h : IsLonger n scopes scopes') :
    List.Forall₂ (IsDeeper n) (itemsFrom scopes f as) (itemsFrom scopes' f as) := by
  induction as generalizing f scopes scopes' with
  | nil => exact f.items_deeper h.reverse
  | cons a as ih =>
    refine List.rel_append (f.items_deeper h.reverse) (ih a.behind ?_ ?_)
    · rw [List.length_tail]
      exact Nat.le_sub_one_of_lt hlong
    · exact h.tail (Nat.lt_of_lt_of_le (Nat.succ_pos _) hlong)

/-- Each `end` that is missed leaves one name more open. -/
theorem itemsRead_deeper (f : Forest limit) (as : List (Around limit)) (hlong : as.length ≤ scopes.length)
    (h : IsLonger n scopes scopes') :
    List.Forall₂ (IsDeeper (n + missed f as)) (itemsFrom scopes f as) (itemsRead scopes' f as) := by
  induction as generalizing f n scopes with
  | nil => exact f.items_deeper h.reverse
  | cons a as ih =>
    by_cases hnode : f.hasNode = true
    · rw [itemsRead, if_pos hnode, missed, if_pos hnode]
      exact itemsFrom_deeper f (a :: as) hlong h
    · -- Behind the `end` of `a` its name should be closed, and it is still open: the lists differ by one more.
      have htail : as.length ≤ scopes.tail.length := by
        rw [List.length_tail]
        exact Nat.le_sub_one_of_lt hlong
      rw [itemsRead, if_neg hnode, missed, if_neg hnode, itemsFrom, (Forest.eq_of_not_hasNode hnode).2, List.nil_append,
        Nat.add_comm (missed a.behind as), ← Nat.add_assoc]
      exact ih a.behind htail (h.tail_left (Nat.lt_of_lt_of_le (Nat.succ_pos _) hlong))

theorem missed_eq_zero_iff (f : Forest limit) (as : List (Around limit)) :
    missed f as = 0 ↔ f.hasNode = true ∨ as = [] := by
  cases as with
  | nil => exact iff_of_true rfl (Or.inr rfl)
  | cons a as =>
    rw [missed]
    split
    · next hnode => exact iff_of_true rfl (Or.inl hnode)
    · next hnode => exact iff_of_false (Nat.succ_ne_zero _) (not_or.mpr ⟨hnode, List.cons_ne_nil a as⟩)

theorem isSilent_of_mem_taken {f : Forest limit} {as : List (Around limit)} (h : missed f as = 0) :
    ∀ l ∈ taken f as, Line.IsSilent l := by
  cases as with
  | nil => exact f.isSilent_of_mem_lead
  | cons a as =>
    have hnode := ((missed_eq_zero_iff f (a :: as)).mp h).resolve_right (List.cons_ne_nil a as)
    rw [taken, if_pos hnode]
    exact f.isSilent_of_mem_lead

end Around

theorem eq_of_deeper_zero {qs rs : List (List Text × Item)} (h : List.Forall₂ (IsDeeper 0) qs rs) : rs = qs := by
  induction h with
  | nil => rfl
  | cons hqr _ ih => rw [ih, Prod.ext hqr.2.eq_of_zero hqr.1]

/-- The contexts are those without the additional resources only if there are none, or nothing is read in
    them. -/
theorem contexts_eq_iff {qs rs : List (List Text × Item)} (h : List.Forall₂ (IsDeeper n) qs rs) :
    rs.map (fun r => contextPath r.1) = qs.map (fun q => contextPath q.1) ↔ n = 0 ∨ qs = [] := by
  constructor
  · intro heq
    cases h with
    | nil => exact Or.inr rfl
    | cons hqr _ =>
      refine Or.inl (Nat.eq_zero_of_not_pos fun hpos => ?_)
      exact hqr.2.contextPath_ne hpos (List.cons.inj heq).1
  · rintro (rfl | rfl)
    · rw [eq_of_deeper_zero h]
    · cases h
      rfl

end Deeper

/-- An endpoint without a handler that is inserted in a document. The blocks before it stay what they are, and
    it has a block of its own there. All blocks behind it keep their texts, but each of them is read within
    one more resource for each `end` that the endpoint takes. So their contexts stay what they are only if an
    endpoint or a resource follows it in its own resource, or it is in none, or no block is behind it. -/
theorem blocks_insert {limit : Nat} (p : Position limit) (u : Stub) (plain : ∀ l ∈ p.lines u.lines, IsPlainLine l) :
    let block := fun q : List Text × Item => q.2.block q.1
    let inserted : Block := ⟨.description, p.scopes.reverse, trim (joinWith "\n" (u.lines ++ p.taken))⟩
    blocks limit (joinWith "\n" p.document.lines) = p.itemsBefore.map block ++ p.itemsBehind.map block ∧
    blocks limit (joinWith "\n" (p.lines u.lines)) =
      p.itemsBefore.map block ++ inserted :: p.itemsRead.map block ∧
    List.Forall₂ (IsDeeper p.missed) p.itemsBehind p.itemsRead ∧
    (p.IsFollowed → p.itemsRead = p.itemsBehind ∧ ∀ l ∈ p.taken, Line.IsSilent l) ∧
    ((p.itemsRead.map block).map Block.context = (p.itemsBehind.map block).map Block.context ↔
      p.IsFollowed ∨ p.itemsBehind = []) := by
  intro block inserted
  have hdeeper : List.Forall₂ (IsDeeper p.missed) p.itemsBehind p.itemsRead := by
    have hlong : p.around.length ≤ p.scopes.length := by rw [Position.scopes, Around.names, List.length_map]
    have h := Around.itemsRead_deeper p.behind p.around hlong (.refl p.scopes)
    rw [Nat.zero_add] at h
    exact h
  have hmissed : p.missed = 0 ↔ p.IsFollowed := Around.missed_eq_zero_iff p.behind p.around
  have hplain : ∀ l ∈ p.document.lines, IsPlainLine l := fun l hl =>
    plain l (p.lines_subset u.lines (p.lines_document ▸ hl))
  refine ⟨p.blocks_document hplain, p.blocks_lines_stub u plain, hdeeper, fun hfollowed => ?_, ?_⟩
  · rw [hmissed.mpr hfollowed] at hdeeper
    exact ⟨eq_of_deeper_zero hdeeper, Around.isSilent_of_mem_taken (hmissed.mpr hfollowed)⟩
  · rw [← hmissed, List.map_map, List.map_map]
    exact contexts_eq_iff hdeeper

/-- Before an endpoint in two resources, one with parameters is inserted that has no handler. -/
theorem blocks_insert_before_endpoint :
    let list : Item :=
      { header := ⟨"    desc 'List'", [], ⟨_, rfl⟩, by decide +kernel⟩
        params := none
        handler := ⟨[], "    get '/list'", [], List.forall_mem_nil _, ⟨.get, _, rfl, rfl⟩, by decide +kernel⟩ }
    let stub : Stub :=
      { header := ⟨"    desc 'Add'", [], ⟨_, rfl⟩, by decide +kernel⟩
        params := some ⟨[], "    params do", ["      resource :id do end", "    end"], List.forall_mem_nil _,
          ⟨" ", [], rfl, by decide, List.all_eq_true.mp rfl, rfl⟩, by decide +kernel, by decide +kernel⟩ }
    let items : Around 4 :=
      { before := .nil, name := "items", opening := "  resource :items do", closing := "  end", behind := .nil
        hopening := ⟨rfl, by decide, List.all_eq_true.mp rfl⟩, hclosing := ⟨rfl, by decide⟩ }
    let shop : Around 4 :=
      { before := .nil, name := "shop", opening := "resource :shop do", closing := "end", behind := .nil
        hopening := ⟨rfl, by decide, List.all_eq_true.mp rfl⟩, hclosing := ⟨rfl, by decide⟩ }
    let place : Position 4 := ⟨.nil, .silent "" (Or.inl rfl) (.item list .nil), [items, shop]⟩
    (∀ l ∈ place.lines stub.lines, IsPlainLine l) ∧
      (blocks 4 (joinWith "\n" (place.lines stub.lines))).map (fun b => (b.context, b.text)) =
        [(some ("shop/items" : Text), trim (joinWith "\n" stub.lines)),
          (some ("shop/items" : Text), trim (joinWith "\n" list.lines))] := by
  intro list stub items shop place
  have plain : ∀ l ∈ place.lines stub.lines, IsPlainLine l := by decide +kernel
  refine ⟨plain, ?_⟩
  rw [(blocks_insert place stub plain).2.1]
  decide +kernel

/-- Alone in a resource, the endpoint takes the `end` of that resource, and the next resource is read within
    it. -/
theorem end_taken_from_resource :
    let get : Item :=
      { header := ⟨"  desc 'Y'", [], ⟨_, rfl⟩, by decide +kernel⟩
        params := none
        handler := ⟨[], "  get :y do", ["  end"], List.forall_mem_nil _, ⟨.get, _, rfl, rfl⟩, by decide +kernel⟩ }
    let stub : Stub := ⟨⟨"  desc 'X'", [], ⟨_, rfl⟩, by decide +kernel⟩, none⟩
    let next : Forest 4 := .resource "b" "resource :b do" "end" ⟨rfl, by decide, List.all_eq_true.mp rfl⟩
      ⟨rfl, by decide⟩ (.item get .nil) .nil
    let around : Around 4 :=
      { before := .nil, name := "a", opening := "resource :a do", closing := "end", behind := next
        hopening := ⟨rfl, by decide, List.all_eq_true.mp rfl⟩, hclosing := ⟨rfl, by decide⟩ }
    let place : Position 4 := ⟨.nil, .nil, [around]⟩
    joinWith "\n" (place.lines stub.lines) =
        "resource :a do\n  desc 'X'\nend\nresource :b do\n  desc 'Y'\n  get :y do\n  end\nend" ∧
      blocks 4 (joinWith "\n" place.document.lines) = [⟨.description, ["b"], "desc 'Y'\n  get :y do\n  end"⟩] ∧
      blocks 4 (joinWith "\n" (place.lines stub.lines)) =
        [⟨.description, ["a"], "desc 'X'\nend"⟩, ⟨.description, ["a", "b"], "desc 'Y'\n  get :y do\n  end"⟩] := by
  decide +kernel

end EndpointAtlas.Description
