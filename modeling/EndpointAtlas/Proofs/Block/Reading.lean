import EndpointAtlas.Block.Description
import EndpointAtlas.Proofs.Block.Line
import EndpointAtlas.Proofs.Text.Lines

/-! What one line can do to the reading of a routing file, and what a run of lines does. An open block gets
    the line, gets it as its last one, or ends before it; outside every block the line is read alone. -/

namespace EndpointAtlas.Description.Reading
open Text

variable {limit : Nat} {r : Reading}

/-! ### Steps -/

theorem step_of_none (h : r.draft = none) (line : Text) :
    step limit r line = (none, outside limit r.scopes line) := by
  rw [step, h]

theorem outside_of_isDesc {line : Text} (h : Line.IsDesc line) (scopes : List Text) :
    outside limit scopes line = ⟨scopes, some ⟨scopes.reverse, [line], .ofDeclaration line⟩⟩ := by
  unfold outside
  dsimp only
  rw [Line.scopeName?_of_isDesc h]
  dsimp only
  rw [if_neg (Line.ne_end_of_isDesc h), if_pos (Line.isDeclaration_of_isDesc h)]

/-- What a line does to an open block is decided by the part it stands at, whatever its lines so far are. -/
theorem step_cases (limit : Nat) (scopes : List Text) (part : Part) (line : Text) :
    (∃ part', ∀ around ls, step limit ⟨scopes, some ⟨around, ls, part⟩⟩ line =
      (none, ⟨scopes, some ⟨around, ls ++ [line], part'⟩⟩)) ∨
    (∀ around ls, step limit ⟨scopes, some ⟨around, ls, part⟩⟩ line =
      (some (Draft.close ⟨around, ls ++ [line], .between⟩), ⟨scopes, none⟩)) ∨
    (part = .between ∧ Line.isBoundary (trim line) = true ∧
      ∀ around ls, step limit ⟨scopes, some ⟨around, ls, part⟩⟩ line =
        (some (Draft.close ⟨around, ls, part⟩), outside limit scopes line)) := by
  unfold step
  cases part with
  | header braces opened => exact Or.inl ⟨_, fun _ _ => rfl⟩
  | between =>
    dsimp only [between]
    cases Line.isSilent (trim line) with
    | true => exact Or.inl ⟨_, fun _ _ => rfl⟩
    | false =>
      cases Line.opensParams (trim line) with
      | true => cases Line.opensBody? line <;> exact Or.inl ⟨_, fun _ _ => rfl⟩
      | false =>
        cases (Line.handlerMethod? (trim line)).isSome with
        | true =>
          cases Line.opensBody? line with
          | some levels => exact Or.inl ⟨_, fun _ _ => rfl⟩
          | none => exact Or.inr (Or.inl fun _ _ => rfl)
        | false =>
          cases hbound : Line.isBoundary (trim line) with
          | true => exact Or.inr (Or.inr ⟨rfl, rfl, fun _ _ => rfl⟩)
          | false => exact Or.inl ⟨_, fun _ _ => rfl⟩
  | params levels => exact Or.inl ⟨_, fun _ _ => rfl⟩
  | handler levels =>
    by_cases hlevels : levels + Keyword.depthChange line ≤ 0
    · exact Or.inr (Or.inl fun _ _ => if_pos hlevels)
    · exact Or.inl ⟨_, fun _ _ => if_neg hlevels⟩

/-- What a line does to an open block. -/
theorem step_of_some {d : Draft} (h : r.draft = some d) (line : Text) :
    (∃ part, step limit r line = (none, ⟨r.scopes, some (d.push line part)⟩)) ∨
    (∃ part, step limit r line = (some (d.push line part).close, ⟨r.scopes, none⟩)) ∨
    (step limit r line = (some d.close, outside limit r.scopes line) ∧ Line.isBoundary (trim line) = true) := by
  obtain ⟨scopes, draft⟩ := r
  obtain rfl : draft = some d := h
  obtain ⟨around, ls, part⟩ := d
  rcases step_cases limit scopes part line with ⟨part', h⟩ | h | ⟨-, hbound, h⟩
  · exact Or.inl ⟨part', h around ls⟩
  · exact Or.inr (Or.inl ⟨.between, h around ls⟩)
  · exact Or.inr (Or.inr ⟨h around ls, hbound⟩)

/-- A block that stands between two parts ends before a line that could begin another block. -/
theorem step_isBoundary {scopes around ls : List Text} {line : Text} (h : Line.IsBoundary line) :
    step limit ⟨scopes, some ⟨around, ls, .between⟩⟩ line =
      (some (Draft.close ⟨around, ls, .between⟩), outside limit scopes line) := by
  obtain ⟨hsilent, hparams, hverb⟩ := Line.unasked_of_isBoundary h
  show between limit scopes ⟨around, ls, .between⟩ line = _
  rw [between]
  simp only [hsilent, hparams, hverb, Line.isBoundary_iff.mpr h, Option.isSome_none, Bool.false_eq_true, if_false,
    if_true]

/-! ### Runs -/

theorem run_cons (line : Text) (lines : List Text) : run limit r (line :: lines) =
    ((step limit r line).1.toList ++ (run limit (step limit r line).2 lines).1,
      (run limit (step limit r line).2 lines).2) := rfl

theorem run_cons_of_eq {r' r'' : Reading} {line : Text} {lines : List Text} {closed : Option Block}
    {bs : List Block} (h : step limit r line = (closed, r')) (hs : run limit r' lines = (bs, r'')) :
    run limit r (line :: lines) = (closed.toList ++ bs, r'') := by
  rw [run_cons, h, hs]

theorem run_append_of_eq {r' r'' : Reading} {ls ms : List Text} {bs cs : List Block}
    (h : run limit r ls = (bs, r')) (hs : run limit r' ms = (cs, r'')) :
    run limit r (ls ++ ms) = (bs ++ cs, r'') := by
  rw [run_append, h, hs]

theorem run_concat (ls : List Text) (line : Text) : run limit r (ls ++ [line]) =
    ((run limit r ls).1 ++ (step limit (run limit r ls).2 line).1.toList,
      (step limit (run limit r ls).2 line).2) := by
  rw [run_append, run_cons]
  simp [run]

/-- The blocks of the lines to the end of a text, read on from `r`. -/
def blocksFrom (limit : Nat) (r : Reading) (ls : List Text) : List Block :=
  (run limit r ls).1 ++ (run limit r ls).2.finish

theorem blocksFrom_append_of_eq {r' : Reading} {ls : List Text} {bs : List Block} (h : run limit r ls = (bs, r'))
    (more : List Text) :
    blocksFrom limit r (ls ++ more) = bs ++ blocksFrom limit r' more := by
  rw [blocksFrom, run_append, h, List.append_assoc, blocksFrom]

theorem blocksFrom_cons (limit : Nat) (r : Reading) (l : Text) (more : List Text) :
    blocksFrom limit r (l :: more) = (step limit r l).1.toList ++ blocksFrom limit (step limit r l).2 more := by
  rw [blocksFrom, run_cons, List.append_assoc, blocksFrom]

theorem blocksFrom_cons_of_eq {r' : Reading} {l : Text} (h : step limit r l = (none, r')) (more : List Text) :
    blocksFrom limit r (l :: more) = blocksFrom limit r' more := by
  rw [blocksFrom_cons, h]
  rfl

/-- What an open block takes of the lines behind it, and what is read of the rest, is decided by the part it
    stands at. Where that is not between two parts, it takes the next line. -/
theorem exists_taken (limit : Nat) (scopes : List Text) (part : Part) (behind : List Text) :
    ∃ back more, back <+: behind ∧ (part ≠ .between → behind ≠ [] → back ≠ []) ∧ ∀ around ls,
      blocksFrom limit ⟨scopes, some ⟨around, ls, part⟩⟩ behind =
        ⟨.description, around, trim (joinWith "\n" (ls ++ back))⟩ :: more := by
  induction behind generalizing part with
  | nil =>
    refine ⟨[], [], List.nil_prefix, fun _ h => absurd rfl h, fun around ls => ?_⟩
    rw [List.append_nil]
    rfl
  | cons line behind ih =>
    rcases step_cases limit scopes part line with ⟨part', hstep⟩ | hstep | ⟨hpart, -, hstep⟩
    · obtain ⟨back, more, hback, -, hblocks⟩ := ih part'
      refine ⟨line :: back, more, (List.prefix_cons_inj line).mpr hback, fun _ _ => List.cons_ne_nil _ _,
        fun around ls => ?_⟩
      rw [blocksFrom_cons_of_eq (hstep around ls), hblocks, List.append_assoc]
      rfl
    · refine ⟨[line], blocksFrom limit ⟨scopes, none⟩ behind, ?_, fun _ _ => List.cons_ne_nil _ _,
        fun around ls => ?_⟩
      · exact (List.prefix_cons_inj line).mpr List.nil_prefix
      · rw [blocksFrom_cons, hstep]
        rfl
    · refine ⟨[], blocksFrom limit (outside limit scopes line) behind, List.nil_prefix, fun h => absurd hpart h,
        fun around ls => ?_⟩
      rw [blocksFrom_cons, hstep, List.append_nil]
      rfl

/-! ### An empty line at the end -/

theorem joinWith_concat_nil (ls : List Text) :
    joinWith "\n" (ls ++ [[]]) = joinWith "\n" ls ++ if ls = [] then [] else ['\n'] := by
  induction ls with
  | nil => rfl
  | cons l ls ih =>
    rw [List.cons_append, joinWith_cons (by simp), ih]
    by_cases hls : ls = []
    · rw [hls]
      simp [joinWith]
    · rw [joinWith_cons hls, if_neg hls, if_neg (List.cons_ne_nil l ls)]
      simp only [List.append_assoc]

theorem close_push_nil (d : Draft) (part : Part) : (d.push [] part).close = d.close := by
  have htext : trim (joinWith "\n" (d.lines ++ [[]])) = trim (joinWith "\n" d.lines) := by
    rw [joinWith_concat_nil]
    by_cases hls : d.lines = []
    · rw [if_pos hls, List.append_nil]
    · rw [if_neg hls, trim_concat_of_isBlank rfl]
  unfold Draft.close Draft.push
  rw [htext]

/-- An empty line neither opens nor ends a block, and no block shows it at its end. -/
theorem finish_step_nil (r : Reading) : (step limit r []).1.toList ++ (step limit r []).2.finish = r.finish := by
  cases hr : r.draft with
  | none =>
    have hnone : r.finish = [] := by
      rw [finish, hr]
      rfl
    rw [step_of_none hr, hnone]
    rfl
  | some d =>
    rcases step_of_some hr [] with ⟨part, h⟩ | ⟨part, h⟩ | ⟨-, hbound⟩
    · rw [h]
      simp [finish, hr, close_push_nil]
    · rw [h]
      simp [finish, hr, close_push_nil]
    · cases hbound

/-- Lines that are joined are read one after the other. -/
theorem blocks_joinWith {ls : List Text} (h : ∀ l ∈ ls, IsPlainLine l) :
    blocks limit (joinWith "\n" ls) =
      (run limit (start []) ls).1 ++ (run limit (start []) ls).2.finish := by
  show (run limit (start []) (lines (joinWith "\n" ls))).1 ++
    (run limit (start []) (lines (joinWith "\n" ls))).2.finish = _
  rcases lines_joinWith h with hlines | hlines
  · rw [hlines]
  · generalize lines (joinWith "\n" ls) = ms at hlines ⊢
    rw [hlines, run_concat, List.append_assoc, finish_step_nil]

end EndpointAtlas.Description.Reading
