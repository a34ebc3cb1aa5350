import EndpointAtlas.Proofs.Block.Nesting
import EndpointAtlas.Proofs.Endpoint.Parameters
import EndpointAtlas.Proofs.Keyword.Shape

/-! The parameters of a block are those that its reading went through. While a file is read, bodies are counted
    line by line, and the parameters end with the first line behind which none is open; in the finished block they
    are counted keyword by keyword, from the `do` of the opening on. Both counts begin behind the same `do`, and the
    second one has come to its end before the first one does. -/

namespace EndpointAtlas.Endpoint
open Text Description

variable {before : Option Char} {s t u v w rest front blanks indent more : Text} {d : Char}

/-! ### Openings -/

/-- Somewhere in the text stand the words that open parameters. -/
def HoldsOpening (t : Text) : Prop := ∃ s u rest, t = s ++ u ∧ OpensParams s.getLast? u rest

theorem holdsOpening_iff : HoldsOpening t ↔ (find? readParamsOpening? none t).isSome = true := by
  rw [← not_iff_not, Bool.not_eq_true, Option.isSome_eq_false_iff, Option.isNone_iff_eq_none, find?_eq_none_iff]
  simp only [Option.or_none, Option.eq_none_iff_forall_ne_some]
  constructor
  · rintro h s u hsplit ⟨⟨⟩, rest⟩ hread
    exact h ⟨s, u, rest, hsplit, readParamsOpening?_eq_some_iff.mp hread⟩
  · rintro h ⟨s, u, rest, hsplit, hopens⟩
    exact h s u hsplit _ (readParamsOpening?_eq_some_iff.mpr hopens)

instance : DecidablePred HoldsOpening := fun _ => decidable_of_iff _ holdsOpening_iff.symm

theorem exists_append_of_not_mem (hd : d ∉ s) (h : v ++ d :: t = s ++ u) : ∃ w, v = s ++ w ∧ u = w ++ d :: t := by
  rcases List.append_eq_append_iff.mp h with ⟨w, hs, ht⟩ | ⟨w, hv, hu⟩
  · cases w with
    | nil =>
      rw [List.append_nil] at hs
      exact ⟨[], by rw [hs, List.append_nil], ht.symm⟩
    | cons e w =>
      obtain ⟨rfl, -⟩ := List.cons.inj ht
      exact absurd (by rw [hs]; exact List.mem_append_right v List.mem_cons_self) hd
  · exact ⟨w, hv, hu⟩

theorem endsWord_of_append (h : endsWord (s ++ t) = true) : endsWord s = true := by
  cases s with
  | nil => rfl
  | cons c s => exact h

/-- An opening that begins before a blank ends before it too, unless `do` is the next word behind the blank. -/
theorem OpensParams.of_append_cons (hd : isBlank d = true) (hdo : dropLead? "do" (trimStart t) = none)
    (h : OpensParams before (v ++ d :: t) rest) : ∃ rest', OpensParams before v rest' := by
  obtain ⟨hstart, hend, blanks, heq, hne, hblank⟩ := h
  have hletters : ∀ l : Text, l.any isBlank = false → d ∉ l :=
    fun l hl hmem => List.any_eq_false.mp hl d hmem hd
  obtain ⟨w, rfl, hw⟩ := exists_append_of_not_mem (hletters "params" rfl) heq
  rcases List.append_eq_append_iff.mp hw with ⟨x, rfl, hx⟩ | ⟨x, hblanks, hx⟩
  · obtain ⟨y, rfl, rfl⟩ := exists_append_of_not_mem (hletters "do" rfl) hx.symm
    exact ⟨y, hstart, endsWord_of_append hend, blanks, rfl, hne, hblank⟩
  · -- The blanks go on behind `d`, so that `do` is the next word there.
    exfalso
    cases x with
    | nil =>
      obtain ⟨rfl, -⟩ := List.cons.inj hx
      cases hd
    | cons e x =>
      rw [List.cons_append] at hx
      obtain ⟨-, rfl⟩ := List.cons.inj hx
      have hx' : ∀ c ∈ x, isBlank c = true := fun c hc =>
        hblank c (by rw [hblanks]; exact List.mem_append_right w (List.mem_cons_of_mem _ hc))
      have hnext : trimStart (x ++ ("do" ++ rest)) = "do" ++ rest := List.dropWhile_append_of_pos hx'
      rw [hnext, dropLead?_eq_some_iff.mpr rfl] at hdo
      cases hdo

theorem HoldsOpening.of_trimStart (h : HoldsOpening (trimStart t)) : HoldsOpening t := by
  obtain ⟨s, u, rest, hsplit, hstart, hopens⟩ := h
  refine ⟨t.takeWhile isBlank ++ s, u, rest, ?_, ?_, hopens⟩
  · rw [List.append_assoc, ← hsplit, trimStart, List.takeWhile_append_dropWhile]
  · cases hs : s.getLast? with
    | some c =>
      rw [hs] at hstart
      rw [List.getLast?_append, hs]
      exact hstart
    | none =>
      rw [List.getLast?_eq_none_iff.mp hs, List.append_nil]
      cases hlast : (t.takeWhile isBlank).getLast? with
      | none => rfl
      | some c =>
        have hc : isBlank c = true := List.mem_takeWhile_imp (List.mem_of_getLast? hlast)
        rw [startsWord, Option.any_some, isWordChar_of_isBlank hc]
        rfl

/-- Where no earlier line holds an opening, none begins before the first word of a line that does not begin with
    `do`. -/
theorem misses_readParamsOpening (h : ¬ HoldsOpening t) (hindent : ∀ c ∈ indent, isBlank c = true)
    (hdo : dropLead? "do" (trimStart u) = none) : Misses readParamsOpening? none (t ++ '\n' :: indent) u := by
  refine misses_of_split fun p c q hsplit => ?_
  rw [Option.or_none, Option.eq_none_iff_forall_ne_some]
  rintro ⟨⟨⟩, rest⟩ hread
  have hopens := readParamsOpening?_eq_some_iff.mp hread
  have hc : isBlank c = false := by
    obtain ⟨-, -, blanks, heq, -⟩ := hopens
    obtain ⟨rfl, -⟩ := List.cons.inj heq
    rfl
  rcases List.append_eq_append_iff.mp hsplit with ⟨x, -, hx⟩ | ⟨x, rfl, hx⟩
  · have hmem : c ∈ '\n' :: indent := by
      rw [hx]
      exact List.mem_append_right x List.mem_cons_self
    have hblank : isBlank c = true := (List.forall_mem_cons (p := (isBlank · = true))).mpr ⟨rfl, hindent⟩ c hmem
    rw [hc] at hblank
    cases hblank
  · rw [← List.cons_append, hx, List.append_assoc, List.cons_append] at hopens
    have hdo' : dropLead? "do" (trimStart (indent ++ u)) = none := by
      rwa [trimStart, List.dropWhile_append_of_pos hindent]
    obtain ⟨rest', hopens'⟩ := hopens.of_append_cons rfl hdo'
    exact h ⟨p, x, rest', rfl, hopens'⟩

/-! ### Levels behind the opening -/

/-- The lines behind the first one change the nesting as lines of their own. -/
theorem changeBehind_append_onNewLines (last : Option Char) (l : Text) (ls : List Text) :
    Keyword.changeBehind last (l ++ onNewLines ls) = Keyword.changeBehind last l + levels ls := by
  induction ls generalizing last l with
  | nil =>
    rw [onNewLines_nil, List.append_nil]
    exact (Int.add_zero _).symm
  | cons m ls ih =>
    rw [onNewLines_cons, Keyword.changeBehind_append_newline, Keyword.depthChange_eq, ih none m, levels_cons,
      Keyword.depthChange_eq]

theorem not_isIdentChar_of_endsWord (h : endsWord t = true) : ∀ c ∈ t.head?, isIdentChar c = false := by
  intro c hc
  rw [endsWord, Option.mem_def.mp hc, Option.any_some, Bool.not_eq_true'] at h
  rw [Bool.eq_false_iff]
  intro hident
  rw [isWordChar_of_isIdentChar hident] at h
  cases h

/-- A line that opens parameters, cut behind its `do`. -/
theorem exists_opening_of_isParams {l : Text} (h : Line.IsParams l) : ∃ indent blanks r,
    l = indent ++ ("params" ++ (blanks ++ ("do" ++ r))) ∧ (∀ c ∈ indent, isBlank c = true) ∧ blanks ≠ [] ∧
      (∀ c ∈ blanks, isBlank c = true) ∧ endsWord r = true := by
  obtain ⟨blanks, r, htrim, hne, hblank, hend⟩ := h
  obtain ⟨indent, u, hl, hindent, hu⟩ := exists_append_trim l
  refine ⟨indent, blanks, r ++ u, ?_, hindent, hne, hblank, ?_⟩
  · rw [hl, htrim]
    simp only [List.append_assoc]
  · cases r with
    | cons c r => exact hend
    | nil =>
      cases u with
      | nil => rfl
      | cons c u =>
        rw [List.nil_append, endsWord, List.head?_cons, Option.any_some, isWordChar_of_isBlank (hu c List.mem_cons_self)]
        rfl

/-- Of the keywords on the line, the `do` is the first one. -/
theorem depthChange_opening (hindent : ∀ c ∈ indent, isBlank c = true) (hne : blanks ≠ [])
    (hblank : ∀ c ∈ blanks, isBlank c = true) (hend : endsWord rest = true) :
    Keyword.depthChange (indent ++ ("params" ++ (blanks ++ ("do" ++ rest)))) =
      1 + Keyword.changeBehind (some 'o') rest := by
  have hpass : ∀ {last : Option Char} {s : Text}, (∀ c ∈ s, isBlank c = true) → ∀ t,
      Keyword.changeBehind last (s ++ t) = Keyword.changeBehind (s.foldl Keyword.lastOnLine last) t := by
    intro last s hs t
    refine Keyword.changeBehind_append (Keyword.isFree_of_forall fun c hc => isIdentChar_of_isBlank (hs c hc)) ?_
    rintro ⟨c, hc, hident⟩
    rw [isIdentChar_of_isBlank (hs c (List.mem_of_getLast? hc))] at hident
    cases hident
  have hhead : ∀ c ∈ (blanks ++ ("do" ++ rest)).head?, isIdentChar c = false := by
    obtain ⟨c, blanks, rfl⟩ := List.exists_cons_of_ne_nil hne
    rintro _ ⟨⟩
    exact isIdentChar_of_isBlank (hblank c List.mem_cons_self)
  rw [Keyword.depthChange_eq, hpass hindent, Keyword.changeBehind_word (by decide) (List.all_eq_true.mp rfl) hhead,
    Keyword.ofWord?_of_not_mem_words (by decide), hpass hblank,
    Keyword.changeBehind_word (by decide) (List.all_eq_true.mp rfl) (not_isIdentChar_of_endsWord hend)]
  exact Int.zero_add _

/-! ### The body behind the opening -/

/-- The body behind a `do` is closed by what stands behind the `do`. -/
theorem matchingClose?_append_do (s : Text) (h : endsWord t = true) :
    Keyword.matchingClose? (s ++ "do" ++ t) (byteLength (s ++ "do")) =
      Keyword.closing? 1 (Keyword.scanFrom (byteLength (s ++ "do")) (some 'o') false t) := by
  have hlast : s ++ "do" = (s ++ ['d']) ++ ['o'] := by
    rw [List.append_assoc]
    rfl
  rw [Keyword.matchingClose?_append]
  have hfold : (s ++ "do").foldl Keyword.lastOnLine none = some 'o' := by
    rw [hlast, List.foldl_append]
    rfl
  have hword : (s ++ "do").getLast?.elim false isIdentChar = true := by
    rw [hlast, List.getLast?_concat]
    rfl
  rw [hfold, hword, Keyword.scanFrom_of_head (not_isIdentChar_of_endsWord h)]

/-- Where more levels are closed than opened on the lines of an opening, the body ends on them. What stands on
    other lines, and the blanks that are trimmed, make no difference. -/
theorem exists_closing?_of_lines (hneg : Keyword.changeBehind (some 'o') s < 0) (hmore : more = [] ∨ ∃ t, more = '\n' :: t)
    (o : Nat) : ∃ inside after, s = inside ++ ("end" ++ after) ∧
      Keyword.closing? 1 (Keyword.scanFrom o (some 'o') false (trimEnd (s ++ more))) = some (o + byteLength inside) := by
  obtain ⟨stop, hstop⟩ := Keyword.exists_closing?_of_changeBehind_neg hneg o
  obtain ⟨inside, after, hs, rfl⟩ := Keyword.exists_end_of_mem_scanFrom (Keyword.mem_of_closing? hstop)
  refine ⟨inside, after, hs, ?_⟩
  obtain ⟨blanks, htrim, hblank⟩ := exists_append_trimEnd (s ++ more)
  rw [← Keyword.scanFrom_append_of_isBlank hblank, ← htrim]
  rcases hmore with rfl | ⟨t, rfl⟩
  · rwa [List.append_nil]
  · rw [Keyword.scanFrom_append_newline]
    exact Keyword.closing?_append hstop

theorem exists_paramsAt_of_lines (hstart : startsWord front.getLast? = true) (hne : blanks ≠ [])
    (hblank : ∀ c ∈ blanks, isBlank c = true) (hend : endsWord s = true)
    (hmisses : ∀ t, Misses readParamsOpening? none front ("params" ++ (blanks ++ ("do" ++ t))))
    (hneg : Keyword.changeBehind (some 'o') s < 0) (hmore : more = [] ∨ ∃ t, more = '\n' :: t) :
    ∃ inside after, s = inside ++ ("end" ++ after) ∧
      ParamsAt (trimEnd (front ++ ("params" ++ (blanks ++ ("do" ++ (s ++ more))))))
        (front ++ ("params" ++ (blanks ++ "do"))) inside ("end" ++ trimEnd (after ++ more)) := by
  have hdo : ∀ t : Text, front ++ ("params" ++ (blanks ++ ("do" ++ t))) =
      front ++ ("params" ++ blanks) ++ "do" ++ t := fun t => by simp only [List.append_assoc]
  have hdo' : front ++ ("params" ++ (blanks ++ "do")) = front ++ ("params" ++ blanks) ++ "do" := by
    simp only [List.append_assoc]
  have hunblank : EndsUnblank (front ++ ("params" ++ blanks) ++ "do") :=
    EndsUnblank.append ⟨['d'], 'o', rfl, rfl⟩ _
  have hword : endsWord (trimEnd (s ++ more)) = true := by
    obtain ⟨u, hu, -⟩ := exists_append_trimEnd (s ++ more)
    refine endsWord_of_append (t := u) ?_
    rw [← hu]
    cases s with
    | cons c s => exact hend
    | nil => rcases hmore with rfl | ⟨t, rfl⟩ <;> rfl
  obtain ⟨inside, after, rfl, hclose⟩ :=
    exists_closing?_of_lines hneg hmore (byteLength (front ++ ("params" ++ blanks) ++ "do"))
  have htrim : trimEnd (inside ++ ("end" ++ after) ++ more) = inside ++ ("end" ++ trimEnd (after ++ more)) := by
    have hend : EndsUnblank (inside ++ "end") := EndsUnblank.append ⟨['e', 'n'], 'd', rfl, rfl⟩ _
    have happend := trimEnd_append_of_endsUnblank hend (after ++ more)
    simpa only [List.append_assoc] using happend
  refine ⟨inside, after, rfl, ?_, ?_, ?_⟩
  · rw [hdo, hdo', trimEnd_append_of_endsUnblank hunblank, htrim]
  · rw [hdo, trimEnd_append_of_endsUnblank hunblank, ← htrim, ← hdo]
    refine find?_append_of_eq_some (hmisses _) (readParamsOpening?_eq_some_iff.mpr ⟨?_, hword, blanks, rfl, hne, hblank⟩)
    rwa [Option.or_none]
  · rw [hdo, hdo', trimEnd_append_of_endsUnblank hunblank, matchingClose?_append_do _ hword, hclose,
      byteLength_append _ inside]

/-! ### The parameters within their lines -/

/-- `opening` is the line `l` up to and with the `do` that opens parameters. -/
def IsOpeningOf (opening l : Text) : Prop := ∃ indent blanks r, opening = indent ++ ("params" ++ (blanks ++ "do")) ∧
  l = opening ++ r ∧ (∀ c ∈ indent, isBlank c = true) ∧ ∀ c ∈ blanks, isBlank c = true

/-- The parameters of a block are `inside`. They begin behind the `do` of the line `first`, before which `before`
    stands in the block, and end before an `end` on that line or on one of the lines `rest`. -/
def ParamsWithin (block before first : Text) (rest : List Text) (inside : Text) : Prop :=
  ∃ opening after behind, IsOpeningOf opening first ∧
    joinWith "\n" (first :: rest) = opening ++ (inside ++ ("end" ++ after)) ∧
    ParamsAt block (before ++ '\n' :: opening) inside ("end" ++ behind)

theorem exists_paramsWithin (p : Params) {ls : List Text} (hls : trimStart (joinWith "\n" (ls ++ p.lead)) ≠ [])
    (hfirst : ¬ HoldsOpening (joinWith "\n" (ls ++ p.lead))) (back : List Text) :
    ∃ inside, ParamsWithin (trim (joinWith "\n" (ls ++ p.lines ++ back)))
      (trimStart (joinWith "\n" (ls ++ p.lead))) p.first p.rest inside := by
  obtain ⟨indent, blanks, r, hl, hindent, hne, hblank, hend⟩ := exists_opening_of_isParams p.params
  have hneg : Keyword.changeBehind (some 'o') (r ++ onNewLines p.rest) < 0 := by
    have hlevels : levels (p.first :: p.rest) ≤ 0 := p.ends.1
    rw [levels_cons, hl, depthChange_opening hindent hne hblank hend] at hlevels
    rw [changeBehind_append_onNewLines]
    omega
  have hend' : endsWord (r ++ onNewLines p.rest) = true := by
    cases r with
    | cons c r => exact hend
    | nil => cases p.rest <;> rfl
  have hmore : onNewLines back = [] ∨ ∃ t, onNewLines back = '\n' :: t := by
    cases back with
    | nil => exact Or.inl rfl
    | cons l back => exact Or.inr ⟨_, onNewLines_cons l back⟩
  have hstart : startsWord (trimStart (joinWith "\n" (ls ++ p.lead)) ++ '\n' :: indent).getLast? = true := by
    rw [List.getLast?_append, List.getLast?_cons]
    cases hlast : indent.getLast? with
    | none => rfl
    | some c =>
      show startsWord (some c) = true
      rw [startsWord, Option.any_some, isWordChar_of_isBlank (hindent c (List.mem_of_getLast? hlast))]
      rfl
  obtain ⟨inside, after, hinside, hat⟩ := exists_paramsAt_of_lines hstart hne hblank hend'
    (fun t => misses_readParamsOpening (mt HoldsOpening.of_trimStart hfirst) hindent rfl) hneg hmore
  refine ⟨inside, indent ++ ("params" ++ (blanks ++ "do")), after, trimEnd (after ++ onNewLines back),
    ⟨indent, blanks, r, rfl, ?_, hindent, hblank⟩, ?_, ?_⟩
  · rw [hl]
    simp only [List.append_assoc]
  · rw [joinWith_cons_eq, hl, ← hinside]
    simp only [List.append_assoc]
  · have hne' : ls ++ p.lead ≠ [] := by
      intro hnil
      rw [hnil] at hls
      exact hls rfl
    have hblock : trim (joinWith "\n" (ls ++ p.lines ++ back)) =
        trimEnd (trimStart (joinWith "\n" (ls ++ p.lead)) ++ '\n' :: indent ++
          ("params" ++ (blanks ++ ("do" ++ (r ++ onNewLines p.rest ++ onNewLines back))))) := by
      have hlines : ls ++ p.lines ++ back = (ls ++ p.lead) ++ p.first :: (p.rest ++ back) := by
        simp only [Params.lines, List.append_assoc, List.cons_append]
      rw [hlines, joinWith_append hne', trim, trimStart_append hls, onNewLines_cons, onNewLines_append, hl]
      simp only [List.append_assoc, List.cons_append]
    rw [hblock]
    simpa only [List.append_assoc, List.cons_append] using hat

/-- Where the reading of a file goes through parameters, it leaves them behind their last line, and the parameters
    of the block that has these lines are found among them: from the `do` of the first line on, and before an `end`
    on one of the lines. No earlier line of the block may hold the words that open parameters. -/
theorem paramsBody?_within_lines (limit : Nat) (p : Params) {front behind ls scopes around : List Text} {text : Text}
    (hread : (Reading.run limit (.start []) front).2 = ⟨scopes, some ⟨around, ls, .between⟩⟩)
    (htext : lines text = front ++ (p.lines ++ behind)) (hfirst : ¬ HoldsOpening (joinWith "\n" (ls ++ p.lead))) :
    (Reading.run limit (.start []) (front ++ p.lines)).2 = ⟨scopes, some ⟨around, ls ++ p.lines, .between⟩⟩ ∧
    ∃ back more inside, back <+: behind ∧
      let block := trim (joinWith "\n" (ls ++ p.lines ++ back))
      blocks limit text = (Reading.run limit (.start []) front).1 ++ ⟨.description, around, block⟩ :: more ∧
      ParamsWithin block (trimStart (joinWith "\n" (ls ++ p.lead))) p.first p.rest inside ∧
      paramsBody? block = some (trim inside) := by
  have hparams : Reading.run limit ⟨scopes, some ⟨around, ls, .between⟩⟩ p.lines = _ := Reading.run_params p ls
  have hfront : Reading.run limit (.start []) front =
      ((Reading.run limit (.start []) front).1, ⟨scopes, some ⟨around, ls, .between⟩⟩) := Prod.ext rfl hread
  have hrun := Reading.run_append_of_eq hfront hparams
  refine ⟨by rw [hrun], ?_⟩
  obtain ⟨back, more, hback, -, htaken⟩ := Reading.exists_taken limit scopes .between behind
  obtain ⟨inside, hwithin⟩ := exists_paramsWithin p
    ((Reading.stands_of_run hread).hasHeader.append p.lead).trimStart_joinWith_ne_nil hfirst back
  have hbody : paramsBody? (trim (joinWith "\n" (ls ++ p.lines ++ back))) = some (trim inside) := by
    obtain ⟨opening, after, behind', -, -, hat⟩ := hwithin
    exact hat.paramsBody?_eq
  refine ⟨back, more, inside, hback, ?_, hwithin, hbody⟩
  show Reading.blocksFrom limit (.start []) (lines text) = _
  rw [htext, ← List.append_assoc, Reading.blocksFrom_append_of_eq hrun, List.append_nil, htaken]

/-- A body within the parameters, and a body behind them. -/
theorem paramsBody?_of_nested_params :
    let p : Params := ⟨[], "params do", ["  requires :a, type: Hash do", "    optional :b", "  end", "end"],
      by decide, ⟨" ", [], rfl, by decide, List.all_eq_true.mp rfl, rfl⟩, by decide +kernel, by decide +kernel⟩
    let front : List Text := ["desc 'A'"]
    let behind : List Text := ["get :a do", "  x", "end"]
    let text : Text := joinWith "\n" (front ++ (p.lines ++ behind))
    (Reading.run 4 (.start []) front).2 = ⟨[], some ⟨[], front, .between⟩⟩ ∧
    lines text = front ++ (p.lines ++ behind) ∧ ¬ HoldsOpening (joinWith "\n" (front ++ p.lead)) ∧
    ∃ b more inside, blocks 4 text = b :: more ∧ ParamsWithin b.text "desc 'A'" p.first p.rest inside ∧
      paramsBody? b.text = some (trim inside) := by
  intro p front behind text
  have hread : (Reading.run 4 (.start []) front).2 = ⟨[], some ⟨[], front, .between⟩⟩ := by decide +kernel
  have htext : lines text = front ++ (p.lines ++ behind) := by decide +kernel
  have hfirst : ¬ HoldsOpening (joinWith "\n" (front ++ p.lead)) := by decide +kernel
  obtain ⟨-, back, more, inside, -, hblocks, hwithin, hbody⟩ := paramsBody?_within_lines 4 p hread htext hfirst
  exact ⟨hread, htext, hfirst, _, more, inside, hblocks, hwithin, hbody⟩

end EndpointAtlas.Endpoint
