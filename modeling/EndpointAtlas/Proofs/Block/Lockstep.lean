import EndpointAtlas.Proofs.Block.Document
import EndpointAtlas.Proofs.Keyword.Shape
import EndpointAtlas.Proofs.Text.Indent
import Mathlib.Data.List.Forall2

/-! Two readings side by side. Where blocks begin and end is decided by what the lines say without their
    indentation; the open resources, and the limit that tells which `end` closes one, decide the contexts and
    nothing else. So two readings stay in step whatever the resources are, and what one line keeps between
    the two lists of resources, a whole text keeps. -/

namespace EndpointAtlas.Description
open Text

/-- The lines say the same in all that decides where blocks begin and end. -/
structure Alike (l m : Text) : Prop where
  trim : trim l = trim m
  braces : Line.braceChange l = Line.braceChange m
  depth : Keyword.depthChange l = Keyword.depthChange m

/-- The resources that a bare `end` leaves open. -/
def afterEnd (limit : Nat) (scopes : List Text) (line : Text) : List Text :=
  if Line.indentWidth line ≤ limit then scopes.tail else scopes

/-- Lines in the relation `R`, read with the limits `p` and `q`, keep the relation `S` between the names of the
    open resources. -/
structure Lockstep (p q : Nat) (R : Text → Text → Prop) (S : List Text → List Text → Prop) : Prop where
  alike : ∀ {l m : Text}, R l m → Alike l m
  opened : ∀ {xs ys : List Text} (name : Text), S xs ys → S (name :: xs) (name :: ys)
  closed : ∀ {l m : Text} {xs ys : List Text}, R l m → S xs ys → S (afterEnd p xs l) (afterEnd q ys m)

section Matches
variable (R : Text → Text → Prop) (S : List Text → List Text → Prop)

/-- Open blocks that stand at the same part. -/
structure DraftsMatch (d e : Draft) : Prop where
  scopes : S d.scopes.reverse e.scopes.reverse
  lines : List.Forall₂ R d.lines e.lines
  part : d.part = e.part

/-- Blocks that were closed at the same part. -/
def BlocksMatch (b c : Block) : Prop := ∃ d e, DraftsMatch R S d e ∧ d.close = b ∧ e.close = c

/-- Readings with matching names open around them, and matching blocks open or none. -/
structure ReadingsMatch (r r' : Reading) : Prop where
  scopes : S r.scopes r'.scopes
  draft : Option.Rel (DraftsMatch R S) r.draft r'.draft

/-- What a line came to in the two readings. -/
structure StepsMatch (x y : Option Block × Reading) : Prop where
  closed : Option.Rel (BlocksMatch R S) x.1 y.1
  reading : ReadingsMatch R S x.2 y.2

end Matches

section Keeps
variable {p q : Nat} {R : Text → Text → Prop} {S : List Text → List Text → Prop} {l m : Text} {xs ys : List Text}
  {d e : Draft}

theorem DraftsMatch.push (h : DraftsMatch R S d e) (hlm : R l m) (part : Part) :
    DraftsMatch R S (d.push l part) (e.push m part) :=
  ⟨h.scopes, List.rel_append h.lines (.cons hlm .nil), rfl⟩

theorem DraftsMatch.blocksMatch (h : DraftsMatch R S d e) : BlocksMatch R S d.close e.close := ⟨d, e, h, rfl, rfl⟩

theorem stepsMatch_goesOn (hs : S xs ys) (h : DraftsMatch R S d e) :
    StepsMatch R S (none, ⟨xs, some d⟩) (none, ⟨ys, some e⟩) := ⟨.none, hs, .some h⟩

theorem stepsMatch_closes (hs : S xs ys) (h : DraftsMatch R S d e) :
    StepsMatch R S (some d.close, ⟨xs, none⟩) (some e.close, ⟨ys, none⟩) := ⟨.some h.blocksMatch, hs, .none⟩

theorem Alike.opensBody? (h : Alike l m) : Line.opensBody? l = Line.opensBody? m := by
  rw [Line.opensBody?, Line.opensBody?, h.depth]

theorem Alike.ofDeclaration (h : Alike l m) : Part.ofDeclaration l = Part.ofDeclaration m := by
  rw [Part.ofDeclaration, Part.ofDeclaration, h.braces, h.trim]

theorem forall₂_toList {α : Type} {B : α → α → Prop} {o o' : Option α} (h : Option.Rel B o o') :
    List.Forall₂ B o.toList o'.toList := by
  cases h with
  | none => exact .nil
  | some h => exact .cons h .nil

theorem ReadingsMatch.finish {r r' : Reading} (h : ReadingsMatch R S r r') :
    List.Forall₂ (BlocksMatch R S) r.finish r'.finish := by
  obtain ⟨xs, draft⟩ := r
  obtain ⟨ys, draft'⟩ := r'
  cases h.draft with
  | none => exact .nil
  | some hd => exact .cons hd.blocksMatch .nil

namespace Lockstep

theorem outside (h : Lockstep p q R S) (hlm : R l m) (hs : S xs ys) :
    ReadingsMatch R S (Reading.outside p xs l) (Reading.outside q ys m) := by
  unfold Reading.outside
  dsimp only
  rw [(h.alike hlm).trim]
  cases Line.scopeName? (trim m) with
  | some name => exact ⟨h.opened name hs, .none⟩
  | none =>
    dsimp only
    split
    · exact ⟨h.closed hlm hs, .none⟩
    · split
      · refine ⟨hs, .some ⟨?_, .cons hlm .nil, (h.alike hlm).ofDeclaration⟩⟩
        rw [List.reverse_reverse, List.reverse_reverse]
        exact hs
      · exact ⟨hs, .none⟩

theorem between (h : Lockstep p q R S) (hlm : R l m) (hs : S xs ys) (hd : DraftsMatch R S d e) :
    StepsMatch R S (Reading.between p xs d l) (Reading.between q ys e m) := by
  unfold Reading.between
  dsimp only
  rw [(h.alike hlm).trim, (h.alike hlm).opensBody?]
  split
  · exact stepsMatch_goesOn hs (hd.push hlm _)
  · split
    · cases Line.opensBody? m with
      | some levels => exact stepsMatch_goesOn hs (hd.push hlm _)
      | none => exact stepsMatch_goesOn hs (hd.push hlm _)
    · split
      · cases Line.opensBody? m with
        | some levels => exact stepsMatch_goesOn hs (hd.push hlm _)
        | none => exact stepsMatch_closes hs (hd.push hlm _)
      · split
        · exact ⟨.some hd.blocksMatch, h.outside hlm hs⟩
        · exact stepsMatch_goesOn hs (hd.push hlm _)

theorem step {r r' : Reading} (h : Lockstep p q R S) (hlm : R l m) (hr : ReadingsMatch R S r r') :
    StepsMatch R S (Reading.step p r l) (Reading.step q r' m) := by
  obtain ⟨xs, draft⟩ := r
  obtain ⟨ys, draft'⟩ := r'
  obtain ⟨hs, hdraft⟩ := hr
  cases hdraft with
  | none => exact ⟨.none, h.outside hlm hs⟩
  | @some d e hd =>
    unfold Reading.step
    dsimp only
    rw [← hd.part, (h.alike hlm).braces, (h.alike hlm).depth]
    cases d.part with
    | header braces opened => exact stepsMatch_goesOn hs (hd.push hlm _)
    | between => exact h.between hlm hs hd
    | params levels => exact stepsMatch_goesOn hs (hd.push hlm _)
    | handler levels =>
      dsimp only
      split
      · exact stepsMatch_closes hs (hd.push hlm _)
      · exact stepsMatch_goesOn hs (hd.push hlm _)

theorem run {ls ms : List Text} {r r' : Reading} (h : Lockstep p q R S) (hls : List.Forall₂ R ls ms)
    (hr : ReadingsMatch R S r r') : List.Forall₂ (BlocksMatch R S) (Reading.run p r ls).1 (Reading.run q r' ms).1 ∧
      ReadingsMatch R S (Reading.run p r ls).2 (Reading.run q r' ms).2 := by
  induction hls generalizing r r' with
  | nil => exact ⟨.nil, hr⟩
  | cons hlm _ ih =>
    have hstep := h.step hlm hr
    obtain ⟨hblocks, hlast⟩ := ih hstep.reading
    exact ⟨List.rel_append (forall₂_toList hstep.closed) hblocks, hlast⟩

theorem blocks {s t : Text} (h : Lockstep p q R S) (hst : List.Forall₂ R (lines s) (lines t)) (hnil : S [] []) :
    List.Forall₂ (BlocksMatch R S) (blocks p s) (blocks q t) := by
  have hstart : ReadingsMatch R S (.start []) (.start []) := ⟨hnil, .none⟩
  obtain ⟨hblocks, hlast⟩ := h.run hst hstart
  exact List.rel_append hblocks hlast.finish

end Lockstep

end Keeps

/-! ### Other indentation -/

theorem braceChange_of_not_mem {t : Text} (hopen : '\x7b' ∉ t) (hclose : '\x7d' ∉ t) :
    Line.braceChange t = (0, false) := by
  have hnone : t.contains '\x7b' = false := by simpa using hopen
  rw [Line.braceChange, List.count_eq_zero_of_not_mem hopen, List.count_eq_zero_of_not_mem hclose, hnone]
  rfl

theorem alike_unindented (l : Text) : Alike (unindented l) l := by
  have hsplit : l.takeWhile isIndent ++ unindented l = l := List.takeWhile_append_dropWhile
  have hindent : ∀ c ∈ l.takeWhile isIndent, c = ' ' ∨ c = '\t' := fun c hc => by
    simpa [isIndent] using List.mem_takeWhile_imp hc
  have hbraces : Line.braceChange (l.takeWhile isIndent) = (0, false) :=
    braceChange_of_not_mem (fun h => by simpa using hindent _ h) fun h => by simpa using hindent _ h
  have hgap : Keyword.IsGap (l.takeWhile isIndent) := fun c hc => by
    rcases hindent c hc with rfl | rfl <;> decide
  refine ⟨trim_unindented l, ?_, ?_⟩
  · have happend := braceChange_append (l.takeWhile isIndent) (unindented l)
    rw [hsplit, hbraces] at happend
    rw [happend]
    simp
  · have happend := Keyword.depthChange_gap hgap (unindented l)
    rw [hsplit] at happend
    exact happend.symm

theorem alike_of_unindented_eq {l m : Text} (h : unindented l = unindented m) : Alike l m := by
  have hl := alike_unindented l
  have hm := alike_unindented m
  rw [h] at hl
  exact ⟨hl.trim.symm.trans hm.trim, hl.braces.symm.trans hm.braces, hl.depth.symm.trans hm.depth⟩

theorem lockstep_unindented (p q : Nat) : Lockstep p q (fun l m => unindented l = unindented m) fun _ _ => True where
  alike := alike_of_unindented_eq
  opened _ _ := trivial
  closed _ _ := trivial

theorem forall₂_iff_map_eq {α β : Type} {f : α → β} {xs ys : List α} :
    List.Forall₂ (fun a b => f a = f b) xs ys ↔ xs.map f = ys.map f := by
  rw [← List.forall₂_eq_eq_eq, List.forall₂_map_left_iff, List.forall₂_map_right_iff]

theorem unindent_close (d : Draft) :
    unindent d.close.text = trim (joinWith "\n" ((d.lines.map unindented).map unindent)) := by
  have hlines : (d.lines.map unindented).map unindent = d.lines.map unindent := by
    rw [List.map_map]
    exact List.map_congr_left fun l _ => unindent_unindented l
  rw [hlines, ← unindent_joinWith, trim_unindent]
  rfl

/-- Indentation and the limit decide the contexts of blocks and nothing else: texts whose lines are the same but
    for spaces and tabs at their fronts have, at any limits, the same blocks but for such spaces and tabs. -/
theorem blocks_of_reindented (p q : Nat) {s t : Text} (h : (lines s).map unindented = (lines t).map unindented) :
    (blocks p s).map (fun b => (b.kind, unindent b.text)) = (blocks q t).map fun b => (b.kind, unindent b.text) := by
  rw [← forall₂_iff_map_eq] at h ⊢
  refine ((lockstep_unindented p q).blocks h trivial).imp ?_
  rintro b c ⟨d, e, hmatch, rfl, rfl⟩
  rw [unindent_close, unindent_close, forall₂_iff_map_eq.mp hmatch.lines]
  rfl

/-- Tabs instead of spaces: the second `end` is indented too far to close its resource, the blocks stay. -/
theorem blocks_of_tabbed_document :
    let spaced : Text := "resource :a do\n  resource :b do\n  end\n" ++
      "  desc 'X', \x7b\n    k: 1\n  \x7d\n  get do\n    if y\n    end\n  end\nend"
    let tabbed : Text := "resource :a do\n\t\tresource :b do\n\t\tend\n" ++
      "desc 'X', \x7b\n\tk: 1\n\x7d\n\tget do\n if y\nend\n\t  end\n\tend"
    (lines spaced).map unindented = (lines tabbed).map unindented ∧
      (blocks 4 spaced).map (fun b => (b.kind, unindent b.text)) =
        (blocks 4 tabbed).map (fun b => (b.kind, unindent b.text)) ∧
      (blocks 4 spaced).map Block.context = [some ("a" : Text)] ∧
      (blocks 4 tabbed).map Block.context = [some ("a/b" : Text)] := by
  intro spaced tabbed
  have hlines : (lines spaced).map unindented = (lines tabbed).map unindented := by decide +kernel
  exact ⟨hlines, blocks_of_reindented 4 4 hlines, by decide +kernel, by decide +kernel⟩

/-! ### Other limits -/

theorem afterEnd_sublist {p q : Nat} (hpq : p ≤ q) {xs ys : List Text} (h : ys.Sublist xs) (l : Text) :
    (afterEnd q ys l).Sublist (afterEnd p xs l) := by
  unfold afterEnd
  by_cases hp : Line.indentWidth l ≤ p
  · rw [if_pos hp, if_pos (Nat.le_trans hp hpq)]
    exact h.tail
  · rw [if_neg hp]
    split
    · exact (List.tail_sublist ys).trans h
    · exact h

theorem lockstep_of_le {p q : Nat} (hpq : p ≤ q) : Lockstep p q Eq fun xs ys => ys.Sublist xs where
  alike h := h ▸ ⟨rfl, rfl, rfl⟩
  opened name h := h.cons_cons name
  closed h hs := h ▸ afterEnd_sublist hpq hs _

/-- A wider limit for the `end` of a resource only takes names out of contexts. -/
theorem blocks_of_wider_limit {p q : Nat} (hpq : p ≤ q) (text : Text) :
    List.Forall₂ (fun b c => b.text = c.text ∧ c.scopes.Sublist b.scopes) (blocks p text) (blocks q text) := by
  have hlines : List.Forall₂ Eq (lines text) (lines text) := List.forall₂_refl _
  refine ((lockstep_of_le hpq).blocks hlines (List.Sublist.refl _)).imp ?_
  rintro b c ⟨d, e, hmatch, rfl, rfl⟩
  have heq : d.lines = e.lines := by
    rw [← List.forall₂_eq_eq_eq]
    exact hmatch.lines
  refine ⟨congrArg (fun ls => trim (joinWith "\n" ls)) heq, ?_⟩
  exact List.reverse_sublist.mp hmatch.scopes

/-- The first `end` closes a resource at the wider limit only, so that the third one finds none open. -/
theorem blocks_of_limit_eight :
    let text : Text := "resource :a do\n      resource :b do\n      end\n" ++
      "  desc 'X'\n  get do\n  end\nend\ndesc 'Y'\nget do\nend\nend"
    let a : Text := "a"
    let b : Text := "b"
    4 ≤ 8 ∧ List.Forall₂ (fun b c => b.text = c.text ∧ c.scopes.Sublist b.scopes) (blocks 4 text) (blocks 8 text) ∧
      (blocks 4 text).map Block.scopes = [[a, b], [a]] ∧ (blocks 8 text).map Block.scopes = [[a], []] := by
  intro text a b
  exact ⟨by decide, blocks_of_wider_limit (by decide) text, by decide +kernel, by decide +kernel⟩

end EndpointAtlas.Description
