import EndpointAtlas.Proofs.Block.Reading
import Mathlib.Data.List.Basic
import Mathlib.Data.List.Induction

/-! The blocks of any text as slices of its lines. Whatever the lines are, the blocks stand one behind the
    other in the text, each begins with a declaration, and no declaration is outside of them. The resources
    around a block are those that the lines outside the blocks have left open before it. -/

namespace EndpointAtlas.Description
open Text

/-- The lines from `start` on and before `stop`. -/
structure Slice where
  start : Nat
  stop : Nat
  deriving DecidableEq, Repr

/-- The line `n` is in one of the slices. -/
def Covered (slices : List Slice) (n : Nat) : Prop := ∃ s ∈ slices, s.start ≤ n ∧ n < s.stop

instance (slices : List Slice) : DecidablePred (Covered slices) := fun n =>
  inferInstanceAs (Decidable (∃ s ∈ slices, s.start ≤ n ∧ n < s.stop))

/-- The lines before the line `n` that are in no slice. -/
def linesOutside (ls : List Text) (slices : List Slice) (n : Nat) : List Text :=
  ((List.range n).filter fun i => ¬ Covered slices i).filterMap (ls[·]?)

/-- The open resources, innermost first, after one more line: it opens one, or it is a bare `end` and not
    indented too much. -/
def replay (limit : Nat) (scopes : List Text) (line : Text) : List Text :=
  match Line.scopeName? (trim line) with
  | some name => name :: scopes
  | none => if trim line = "end" ∧ Line.indentWidth line ≤ limit then scopes.tail else scopes

/-- The resources that are open before the line `n`, innermost first. -/
def scopesBefore (limit : Nat) (ls : List Text) (slices : List Slice) (n : Nat) : List Text :=
  (linesOutside ls slices n).foldl (replay limit) []

/-- The block that a slice shows. -/
def Slice.block (limit : Nat) (ls : List Text) (slices : List Slice) (s : Slice) : Block :=
  ⟨.description, (scopesBefore limit ls slices s.start).reverse,
    trim (joinWith "\n" ((ls.take s.stop).drop s.start))⟩

/-- The slices cut the blocks out of the lines. -/
structure IsCut (limit : Nat) (ls : List Text) (slices : List Slice) (bs : List Block) : Prop where
  within : ∀ s ∈ slices, s.start < s.stop ∧ s.stop ≤ ls.length
  ordered : slices.Pairwise fun s t => s.stop ≤ t.start
  declares : ∀ s ∈ slices, ∀ l ∈ ls[s.start]?, Line.IsDesc l
  complete : ∀ n, ¬ Covered slices n → ∀ l ∈ ls[n]?, ¬ Line.IsDesc l
  blocks : bs = slices.map (Slice.block limit ls slices)

/-! ### Lines outside the slices -/

section Outside
variable {limit : Nat} {ls ms : List Text} {slices slices' : List Slice} {n : Nat}

theorem linesOutside_congr (hcov : ∀ i < n, Covered slices i ↔ Covered slices' i) (hls : ∀ i < n, ls[i]? = ms[i]?) :
    linesOutside ls slices n = linesOutside ms slices' n := by
  unfold linesOutside
  have hfilter : ((List.range n).filter fun i => ¬ Covered slices i) =
      (List.range n).filter fun i => ¬ Covered slices' i :=
    List.filter_congr fun i hi => by rw [decide_eq_decide, hcov i (List.mem_range.mp hi)]
  rw [hfilter]
  exact List.filterMap_congr fun i hi => hls i (List.mem_range.mp (List.mem_filter.mp hi).1)

theorem linesOutside_succ_of_covered (h : Covered slices n) :
    linesOutside ls slices (n + 1) = linesOutside ls slices n := by
  unfold linesOutside
  rw [List.range_succ, List.filter_append, List.filter_cons_of_neg (by simpa using h), List.filter_nil,
    List.append_nil]

theorem linesOutside_succ_of_not_covered (h : ¬ Covered slices n) {l : Text} (hl : ls[n]? = some l) :
    linesOutside ls slices (n + 1) = linesOutside ls slices n ++ [l] := by
  unfold linesOutside
  rw [List.range_succ, List.filter_append, List.filter_cons_of_pos (by simpa using h), List.filter_nil,
    List.filterMap_append, List.filterMap_cons_some hl]
  rfl

theorem scopesBefore_congr (hcov : ∀ i < n, Covered slices i ↔ Covered slices' i) (hls : ∀ i < n, ls[i]? = ms[i]?) :
    scopesBefore limit ls slices n = scopesBefore limit ms slices' n := by
  rw [scopesBefore, linesOutside_congr hcov hls, scopesBefore]

theorem scopesBefore_succ_of_covered (h : Covered slices n) :
    scopesBefore limit ls slices (n + 1) = scopesBefore limit ls slices n := by
  rw [scopesBefore, linesOutside_succ_of_covered h, scopesBefore]

theorem scopesBefore_succ_of_not_covered (h : ¬ Covered slices n) {l : Text} (hl : ls[n]? = some l) :
    scopesBefore limit ls slices (n + 1) = replay limit (scopesBefore limit ls slices n) l := by
  rw [scopesBefore, linesOutside_succ_of_not_covered h hl, List.foldl_append, List.foldl_cons, List.foldl_nil,
    scopesBefore]

/-- More lines behind a slice, and other slices behind its start, leave its block as it is. -/
theorem block_append {s : Slice} (hstart : s.start ≤ s.stop) (hstop : s.stop ≤ ls.length)
    (hcov : ∀ i < s.start, Covered slices' i ↔ Covered slices i) (more : List Text) :
    s.block limit (ls ++ more) slices' = s.block limit ls slices := by
  have hls : ∀ i < s.start, (ls ++ more)[i]? = ls[i]? := fun i hi =>
    List.getElem?_append_left (Nat.lt_of_lt_of_le hi (Nat.le_trans hstart hstop))
  rw [Slice.block, scopesBefore_congr hcov hls, List.take_append_of_le_length hstop, Slice.block]

theorem covered_concat {s : Slice} : Covered (slices ++ [s]) n ↔ Covered slices n ∨ s.start ≤ n ∧ n < s.stop := by
  unfold Covered
  constructor
  · rintro ⟨t, ht, hn⟩
    rcases List.mem_append.mp ht with ht | ht
    · exact Or.inl ⟨t, ht, hn⟩
    · rw [List.mem_singleton.mp ht] at hn
      exact Or.inr hn
  · rintro (⟨t, ht, hn⟩ | hn)
    · exact ⟨t, List.mem_append_left _ ht, hn⟩
    · exact ⟨s, List.mem_append_right _ (List.mem_singleton_self s), hn⟩

theorem covered_concat_of_lt {s : Slice} (h : n < s.start) : Covered (slices ++ [s]) n ↔ Covered slices n := by
  rw [covered_concat]
  exact or_iff_left fun hn => Nat.not_le.mpr h hn.1

end Outside

/-! ### Longer cuts -/

namespace IsCut
variable {limit : Nat} {ls : List Text} {slices : List Slice} {bs : List Block}

theorem nil : IsCut limit [] [] [] where
  within _ hs := nomatch hs
  ordered := List.Pairwise.nil
  declares _ hs := nomatch hs
  complete _ _ _ hl := nomatch hl
  blocks := rfl

theorem not_covered (h : IsCut limit ls slices bs) : ¬ Covered slices ls.length := by
  rintro ⟨s, hs, -, hlt⟩
  exact Nat.not_lt.mpr (h.within s hs).2 hlt

theorem getElem?_start (h : IsCut limit ls slices bs) {s : Slice} (hs : s ∈ slices) (more : List Text) :
    (ls ++ more)[s.start]? = ls[s.start]? :=
  List.getElem?_append_left (Nat.lt_of_lt_of_le (h.within s hs).1 (h.within s hs).2)

/-- A line that declares nothing may follow outside. -/
theorem append_line (h : IsCut limit ls slices bs) {line : Text} (hline : ¬ Line.IsDesc line) :
    IsCut limit (ls ++ [line]) slices bs where
  within s hs := by
    obtain ⟨hlt, hle⟩ := h.within s hs
    refine ⟨hlt, Nat.le_trans hle ?_⟩
    simp
  ordered := h.ordered
  declares s hs l hl := by
    rw [h.getElem?_start hs] at hl
    exact h.declares s hs l hl
  complete n hn l hl := by
    rcases Nat.lt_or_ge n ls.length with hlt | hge
    · rw [List.getElem?_append_left hlt] at hl
      exact h.complete n hn l hl
    · rw [List.getElem?_append_right hge] at hl
      obtain rfl : l = line := List.mem_singleton.mp (List.mem_of_getElem? hl)
      exact hline
  blocks := by
    rw [h.blocks]
    refine List.map_congr_left fun s hs => ?_
    obtain ⟨hlt, hle⟩ := h.within s hs
    exact (block_append (Nat.le_of_lt hlt) hle (fun _ _ => Iff.rfl) [line]).symm

theorem scopesBefore_append_line (h : IsCut limit ls slices bs) (line : Text) :
    scopesBefore limit (ls ++ [line]) slices (ls ++ [line]).length =
      replay limit (scopesBefore limit ls slices ls.length) line := by
  have hls : ∀ i < ls.length, (ls ++ [line])[i]? = ls[i]? := fun i hi => List.getElem?_append_left hi
  rw [List.length_append, List.length_singleton,
    scopesBefore_succ_of_not_covered h.not_covered (List.getElem?_concat_length),
    scopesBefore_congr (fun _ _ => Iff.rfl) hls]

/-- A declaration and any lines behind it may follow as a slice. -/
theorem append_block (h : IsCut limit ls slices bs) {first : Text} (hfirst : Line.IsDesc first) (rest : List Text) :
    IsCut limit (ls ++ first :: rest) (slices ++ [⟨ls.length, (ls ++ first :: rest).length⟩])
      (bs ++ [⟨.description, (scopesBefore limit ls slices ls.length).reverse,
        trim (joinWith "\n" (first :: rest))⟩]) where
  within s hs := by
    rcases List.mem_append.mp hs with hs | hs
    · obtain ⟨hlt, hle⟩ := h.within s hs
      refine ⟨hlt, Nat.le_trans hle ?_⟩
      simp
    · rw [List.mem_singleton.mp hs]
      simp
  ordered := by
    rw [List.pairwise_append]
    refine ⟨h.ordered, List.pairwise_singleton _ _, fun s hs t ht => ?_⟩
    rw [List.mem_singleton.mp ht]
    exact (h.within s hs).2
  declares s hs l hl := by
    rcases List.mem_append.mp hs with hs | hs
    · rw [h.getElem?_start hs] at hl
      exact h.declares s hs l hl
    · rw [List.mem_singleton.mp hs] at hl
      rw [List.getElem?_append_right (Nat.le_refl _), Nat.sub_self] at hl
      cases hl
      exact hfirst
  complete n hn l hl := by
    -- The new slice covers all that follows `ls`.
    rw [covered_concat, not_or] at hn
    have hlt : n < (ls ++ first :: rest).length := (List.getElem?_eq_some_iff.mp hl).1
    have hn' : n < ls.length := Nat.lt_of_not_le fun hle => hn.2 ⟨hle, hlt⟩
    rw [List.getElem?_append_left hn'] at hl
    exact h.complete n hn.1 l hl
  blocks := by
    rw [List.map_append, List.map_singleton, h.blocks]
    congr 1
    · refine List.map_congr_left fun s hs => ?_
      obtain ⟨hlt, hle⟩ := h.within s hs
      refine (block_append (Nat.le_of_lt hlt) hle (fun i hi => covered_concat_of_lt ?_) _).symm
      exact Nat.lt_of_lt_of_le (Nat.lt_trans hi hlt) hle
    · have hls : ∀ i < ls.length, (ls ++ first :: rest)[i]? = ls[i]? := fun i hi => List.getElem?_append_left hi
      rw [Slice.block, scopesBefore_congr (fun i hi => covered_concat_of_lt hi) hls, List.take_length,
        List.drop_left]

theorem scopesBefore_append_block (ls : List Text) (slices : List Slice) (body : List Text) :
    scopesBefore limit (ls ++ body) (slices ++ [⟨ls.length, (ls ++ body).length⟩]) (ls ++ body).length =
      scopesBefore limit ls slices ls.length := by
  have hls : ∀ i < ls.length, (ls ++ body)[i]? = ls[i]? := fun i hi => List.getElem?_append_left hi
  have hinside : ∀ k ≤ body.length, scopesBefore limit (ls ++ body)
      (slices ++ [⟨ls.length, (ls ++ body).length⟩]) (ls.length + k) = scopesBefore limit ls slices ls.length := by
    intro k hk
    induction k with
    | zero => exact scopesBefore_congr (fun i hi => covered_concat_of_lt hi) hls
    | succ k ih =>
      have hcov : Covered (slices ++ [⟨ls.length, (ls ++ body).length⟩]) (ls.length + k) := by
        refine covered_concat.mpr (Or.inr ⟨Nat.le_add_right _ _, ?_⟩)
        rw [List.length_append]
        exact Nat.add_lt_add_left hk _
      rw [← Nat.add_assoc, scopesBefore_succ_of_covered hcov, ih (Nat.le_of_succ_le hk)]
  rw [← hinside body.length (Nat.le_refl _), List.length_append]

end IsCut

/-! ### Reading -/

theorem outside_of_not_isDesc {line : Text} (h : ¬ Line.IsDesc line) (limit : Nat) (scopes : List Text) :
    Reading.outside limit scopes line = ⟨replay limit scopes line, none⟩ := by
  unfold Reading.outside replay
  dsimp only
  cases Line.scopeName? (trim line) with
  | some name => rfl
  | none =>
    dsimp only
    rw [if_neg (mt Line.isDeclaration_iff.mp h)]
    by_cases hend : trim line = "end"
    · rw [if_pos hend]
      simp only [hend, true_and]
    · rw [if_neg hend, if_neg fun h => hend h.1]

/-- What reading has come to after some lines: a cut of those before the open block, if there is one, and
    the lines of that block. -/
inductive IsRead (limit : Nat) (ls : List Text) (bs : List Block) (r : Reading) : Prop where
  | between (slices : List Slice) (hcut : IsCut limit ls slices bs) (hdraft : r.draft = none)
      (hscopes : r.scopes = scopesBefore limit ls slices ls.length)
  | within (before : List Text) (slices : List Slice) (first : Text) (rest : List Text) (d : Draft)
      (hcut : IsCut limit before slices bs) (hfirst : Line.IsDesc first) (hls : ls = before ++ first :: rest)
      (hdraft : r.draft = some d) (hlines : d.lines = first :: rest) (haround : d.scopes = r.scopes.reverse)
      (hscopes : r.scopes = scopesBefore limit before slices before.length)

namespace IsRead
variable {limit : Nat} {ls : List Text} {bs : List Block} {r : Reading}

theorem start : IsRead limit [] [] (.start []) := .between [] .nil rfl rfl

/-- A line that is read outside every block. -/
theorem outside {slices : List Slice} (h : IsCut limit ls slices bs) (line : Text) :
    IsRead limit (ls ++ [line]) bs (Reading.outside limit (scopesBefore limit ls slices ls.length) line) := by
  by_cases hline : Line.IsDesc line
  · rw [Reading.outside_of_isDesc hline]
    exact .within ls slices line [] _ h hline rfl rfl rfl rfl rfl
  · rw [outside_of_not_isDesc hline]
    exact .between slices (h.append_line hline) rfl (h.scopesBefore_append_line line).symm

/-- The slice of a block that ends here. -/
theorem close {before : List Text} {slices : List Slice} {first : Text} {rest : List Text} {d : Draft}
    (hcut : IsCut limit before slices bs) (hfirst : Line.IsDesc first) (hlines : d.lines = first :: rest)
    (haround : d.scopes = (scopesBefore limit before slices before.length).reverse) :
    IsCut limit (before ++ first :: rest) (slices ++ [⟨before.length, (before ++ first :: rest).length⟩])
      (bs ++ [d.close]) := by
  rw [Draft.close, hlines, haround]
  exact hcut.append_block hfirst rest

/-- One line further. -/
theorem step (h : IsRead limit ls bs r) (line : Text) :
    IsRead limit (ls ++ [line]) (bs ++ (Reading.step limit r line).1.toList) (Reading.step limit r line).2 := by
  cases h with
  | between slices hcut hdraft hscopes =>
    rw [Reading.step_of_none hdraft, hscopes]
    simpa using outside hcut line
  | within before slices first rest d hcut hfirst hls hdraft hlines haround hscopes =>
    have hls' : ls ++ [line] = before ++ first :: (rest ++ [line]) := by rw [hls, List.append_assoc, List.cons_append]
    have hlines' : d.lines ++ [line] = first :: (rest ++ [line]) := by rw [hlines, List.cons_append]
    rw [hscopes] at haround
    -- The line is in the block, or is its last one, or ends the block before it and is read outside.
    rcases Reading.step_of_some hdraft line with ⟨part, hstep⟩ | ⟨part, hstep⟩ | ⟨hstep, -⟩
    · rw [hstep, Option.toList_none, List.append_nil]
      exact .within before slices first (rest ++ [line]) _ hcut hfirst hls' rfl hlines' (hscopes ▸ haround) hscopes
    · rw [hstep, Option.toList_some, hls']
      have hclosed : IsCut limit _ _ (bs ++ [(d.push line part).close]) := close hcut hfirst hlines' haround
      exact .between _ hclosed rfl (hscopes.trans (IsCut.scopesBefore_append_block before slices _).symm)
    · have hclosed : IsCut limit _ _ (bs ++ [d.close]) := close hcut hfirst hlines haround
      rw [hstep, Option.toList_some, hls, hscopes, ← IsCut.scopesBefore_append_block before slices (first :: rest)]
      exact outside hclosed line

theorem run (limit : Nat) (ls : List Text) :
    IsRead limit ls (Reading.run limit (.start []) ls).1 (Reading.run limit (.start []) ls).2 := by
  induction ls using List.reverseRecOn with
  | nil => exact start
  | append_singleton ls line ih =>
    rw [Reading.run_concat]
    exact ih.step line

/-- The end of the text closes the open block. -/
theorem finish (h : IsRead limit ls bs r) : ∃ slices, IsCut limit ls slices (bs ++ r.finish) := by
  cases h with
  | between slices hcut hdraft hscopes =>
    have hfinish : r.finish = [] := by
      rw [Reading.finish, hdraft]
      rfl
    rw [hfinish, List.append_nil]
    exact ⟨slices, hcut⟩
  | within before slices first rest d hcut hfirst hls hdraft hlines haround hscopes =>
    have hfinish : r.finish = [d.close] := by
      rw [Reading.finish, hdraft]
      rfl
    rw [hscopes] at haround
    rw [hfinish, hls]
    exact ⟨_, close hcut hfirst hlines haround⟩

end IsRead

/-- The blocks of any text are slices of its lines that hold every declaration, in the order of the text and
    none over another. The context of a block is the path of the resources that the lines outside the slices
    have left open before it. -/
theorem exists_isCut (limit : Nat) (text : Text) : ∃ slices, IsCut limit (lines text) slices (blocks limit text) ∧
    (blocks limit text).map Block.context =
      slices.map fun s => contextPath (scopesBefore limit (lines text) slices s.start).reverse := by
  obtain ⟨slices, hcut⟩ : ∃ slices, IsCut limit (lines text) slices (blocks limit text) :=
    (IsRead.run limit (lines text)).finish
  refine ⟨slices, hcut, ?_⟩
  rw [hcut.blocks, List.map_map]
  rfl

end EndpointAtlas.Description
