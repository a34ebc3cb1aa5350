import EndpointAtlas.Proofs.Block.Reading

/-! A text that is read behind another one. Reading never looks ahead, so the blocks that the lines of the
    first text close stay what they are, and all that the second text meets of it is the reading that it
    leaves: an open block, if there is one, and the names of the open resources. -/

namespace EndpointAtlas.Description
open Text

variable {limit : Nat} {scopes : List Text} {s : Text}

/-- What reading has come to at the end of a text, before that end closes a block. -/
def readingAfter (scopes : List Text) (limit : Nat) (t : Text) : Reading :=
  (Reading.run limit (.start scopes) (lines t)).2

/-- The blocks that the lines of a text close. -/
def closedWithin (scopes : List Text) (limit : Nat) (t : Text) : List Block :=
  (Reading.run limit (.start scopes) (lines t)).1

theorem blocksWithin_eq (scopes : List Text) (limit : Nat) (t : Text) :
    blocksWithin scopes limit t = closedWithin scopes limit t ++ (readingAfter scopes limit t).finish := rfl

theorem finish_of_draft_eq_none {r : Reading} (h : r.draft = none) : r.finish = [] := by
  rw [Reading.finish, h]
  rfl

theorem eq_start_of_draft_eq_none {r : Reading} (h : r.draft = none) : r = .start r.scopes := by
  obtain ⟨scopes, draft⟩ := r
  obtain rfl : draft = none := h
  rfl

/-- The reading that the first text leaves goes on with the lines of the second. -/
theorem blocksWithin_append (hs : EndsLine s) (t : Text) : blocksWithin scopes limit (s ++ t) =
    closedWithin scopes limit s ++ Reading.blocksFrom limit (readingAfter scopes limit s) (lines t) := by
  show Reading.blocksFrom limit (.start scopes) (lines (s ++ t)) = _
  rw [lines_append hs]
  exact Reading.blocksFrom_append_of_eq rfl (lines t)

/-- A text leaves the next one nothing but the open resources if it leaves no block open. -/
theorem blocksWithin_append_of_closed (hs : EndsLine s) (h : (readingAfter scopes limit s).draft = none) (t : Text) :
    blocksWithin scopes limit (s ++ t) =
      blocksWithin scopes limit s ++ blocksWithin (readingAfter scopes limit s).scopes limit t := by
  rw [blocksWithin_append hs, blocksWithin_eq scopes limit s, finish_of_draft_eq_none h, List.append_nil,
    eq_start_of_draft_eq_none h]
  rfl

/-- More text behind a text leaves its blocks as they are, but for a last one that its end has closed. If there
    is none, the blocks of what follows are added, read within the resources that are still open; if there are
    none of those either, they are the blocks that it has alone. -/
theorem blocks_append (limit : Nat) {s : Text} (hs : EndsLine s) (t : Text) :
    let left := readingAfter [] limit s
    (∃ closed, blocks limit s = closed ++ (left.draft.map Draft.close).toList ∧ closed <+: blocks limit (s ++ t)) ∧
    (left.draft = none → blocks limit (s ++ t) = blocks limit s ++ blocksWithin left.scopes limit t) ∧
    (left.draft = none → left.scopes = [] → blocks limit (s ++ t) = blocks limit s ++ blocks limit t) := by
  intro left
  have happend : left.draft = none → blocks limit (s ++ t) = blocks limit s ++ blocksWithin left.scopes limit t :=
    fun hclosed => blocksWithin_append_of_closed hs hclosed t
  refine ⟨⟨closedWithin [] limit s, rfl, ?_⟩, happend, fun hclosed hscopes => ?_⟩
  · rw [blocks, blocksWithin_append hs]
    exact List.prefix_append _ _
  · rw [happend hclosed, hscopes]
    rfl

/-- The first text leaves a resource open, the second one also a block. -/
theorem blocks_append_behind_open_resource :
    let first : Text := "resource :a do\r\n  desc 'X'\r\n  get :x do\r\n  end\r\n"
    let second : Text := "  desc 'Y'\n  params do\n"
    let third : Text := "  end\nresource :b do\nend\nend\ndesc 'Z'"
    let around : List Text := ["a"]
    EndsLine first ∧ (readingAfter [] 4 first).draft = none ∧
      blocks 4 (first ++ second) = blocks 4 first ++ blocksWithin around 4 second ∧
      EndsLine (first ++ second) ∧ (readingAfter [] 4 (first ++ second)).draft ≠ none ∧
      blocks 4 first <+: blocks 4 (first ++ second ++ third) := by
  intro first second third around
  have hfirst : EndsLine first := by decide +kernel
  have hsecond : EndsLine (first ++ second) := by decide +kernel
  have hread : readingAfter [] 4 first = .start around := by decide +kernel
  have hleft : (readingAfter [] 4 (first ++ second)).draft =
      some ⟨around, ["  desc 'Y'", "  params do"], .params 1⟩ := by decide +kernel
  have hclosed : (readingAfter [] 4 first).draft = none := by
    rw [hread]
    rfl
  have happend : blocks 4 (first ++ second) = blocks 4 first ++ blocksWithin around 4 second := by
    have hblocks := (blocks_append 4 hfirst second).2.1 hclosed
    rw [hread] at hblocks
    exact hblocks
  refine ⟨hfirst, hclosed, happend, hsecond, by simp [hleft], ?_⟩
  obtain ⟨⟨closed, hblocks, hprefix⟩, -⟩ := blocks_append 4 hsecond third
  have hwithin : (blocksWithin around 4 second).length = 1 := by decide +kernel
  rw [hleft, happend] at hblocks
  obtain rfl : blocks 4 first = closed := List.append_inj_left' hblocks hwithin
  exact hprefix

end EndpointAtlas.Description
