import EndpointAtlas.Proofs.Text.Blank
import EndpointAtlas.Proofs.Text.Pieces

/-! Lines that are joined at line feeds and taken apart again. They come back as they were, save for an
    empty last line: nothing stands behind the last line feed then. -/

namespace EndpointAtlas.Text

/-- A line that can stand in a file as it is. -/
def IsPlainLine (l : Text) : Prop := '\n' ∉ l ∧ '\r' ∉ l

instance : DecidablePred IsPlainLine := fun _ => inferInstanceAs (Decidable (_ ∧ _))

theorem lines_cons_of_not_feed {c : Char} {t : Text} (hn : c ≠ '\n') (hrn : c = '\r' → t.head? ≠ some '\n') :
    lines (c :: t) = match lines t with
      | [] => [[c]]
      | l :: ls => (c :: l) :: ls := by
  conv =>
    lhs
    unfold lines
  split
  · next h => cases h
  · next h => exact absurd (List.cons.inj h).1 hn
  · next h =>
    obtain ⟨rfl, rfl⟩ := List.cons.inj h
    exact absurd rfl (hrn rfl)
  · next h =>
    obtain ⟨rfl, rfl⟩ := List.cons.inj h
    rfl

theorem lines_cons {c : Char} {t : Text} (hn : c ≠ '\n') (hr : c ≠ '\r') :
    lines (c :: t) = match lines t with
      | [] => [[c]]
      | l :: ls => (c :: l) :: ls :=
  lines_cons_of_not_feed hn fun h => absurd h hr

theorem lines_append_cons {l : Text} (h : IsPlainLine l) (t : Text) : lines (l ++ '\n' :: t) = l :: lines t := by
  induction l with
  | nil => rfl
  | cons c l ih =>
    obtain ⟨hn, hr⟩ := h
    rw [List.mem_cons, not_or] at hn hr
    rw [List.cons_append, lines_cons (Ne.symm hn.1) (Ne.symm hr.1), ih ⟨hn.2, hr.2⟩]

theorem lines_of_isPlainLine {l : Text} (h : IsPlainLine l) (hne : l ≠ []) : lines l = [l] := by
  induction l with
  | nil => exact absurd rfl hne
  | cons c l ih =>
    obtain ⟨hn, hr⟩ := h
    rw [List.mem_cons, not_or] at hn hr
    rw [lines_cons (Ne.symm hn.1) (Ne.symm hr.1)]
    by_cases hl : l = []
    · rw [hl]
      rfl
    · rw [ih ⟨hn.2, hr.2⟩ hl]

theorem lines_joinWith {ls : List Text} (h : ∀ l ∈ ls, IsPlainLine l) :
    lines (joinWith "\n" ls) = ls ∨ ls = lines (joinWith "\n" ls) ++ [[]] := by
  induction ls with
  | nil => exact Or.inl rfl
  | cons l ls ih =>
    have hl : IsPlainLine l := h l List.mem_cons_self
    cases ls with
    | nil =>
      by_cases hne : l = []
      · rw [hne]
        exact Or.inr rfl
      · exact Or.inl (lines_of_isPlainLine hl hne)
    | cons m ls =>
      have hlines : lines (joinWith "\n" (l :: m :: ls)) = l :: lines (joinWith "\n" (m :: ls)) := by
        rw [joinWith, List.append_assoc]
        exact lines_append_cons hl _
      rw [hlines]
      rcases ih fun k hk => h k (List.mem_cons_of_mem _ hk) with ih | ih
      · exact Or.inl (by rw [ih])
      · exact Or.inr (by rw [List.cons_append, ← ih])

/-! ### A text behind another one -/

/-- No line of the text is left open: it is empty or ends in a line feed. -/
def EndsLine (t : Text) : Prop := t = [] ∨ endsIn '\n' t = true

instance : DecidablePred EndsLine := fun _ => inferInstanceAs (Decidable (_ ∨ _))

theorem EndsLine.of_cons {c : Char} {t : Text} (h : EndsLine (c :: t)) : EndsLine t := by
  cases t with
  | nil => exact Or.inl rfl
  | cons d t => exact Or.inr (h.resolve_left (List.cons_ne_nil c _))

theorem endsLine_iff {s : Text} : EndsLine s ↔ (s.getLast?.or none).all (· == '\n') = true := by
  rw [Option.or_none, EndsLine, endsIn, ← List.getLast?_eq_none_iff]
  cases s.getLast? <;> simp

theorem EndsLine.append {s t : Text} (hs : EndsLine s) (ht : EndsLine t) : EndsLine (s ++ t) := by
  rcases ht with rfl | ht
  · rwa [List.append_nil]
  · refine Or.inr ?_
    rw [endsIn, beq_iff_eq] at ht
    rw [endsIn, List.getLast?_append, ht]
    rfl

theorem EndsLine.mem_of_append {s t : Text} (h : EndsLine (s ++ t)) (ht : t ≠ []) : '\n' ∈ t := by
  have hlast := h.resolve_left fun hnil => ht (List.append_eq_nil_iff.mp hnil).2
  rw [endsIn, beq_iff_eq, List.getLast?_append, List.getLast?_eq_some_getLast ht] at hlast
  exact Option.some.inj hlast ▸ List.getLast_mem ht

/-- What follows the last line feed of a text, and all before it. -/
theorem exists_last_line (t : Text) : ∃ s u, t = s ++ u ∧ EndsLine s ∧ '\n' ∉ u := by
  induction t with
  | nil => exact ⟨[], [], rfl, Or.inl rfl, List.not_mem_nil⟩
  | cons c t ih =>
    obtain ⟨s, u, rfl, hs, hu⟩ := ih
    cases s with
    | nil =>
      by_cases hc : c = '\n'
      · exact ⟨[c], u, rfl, Or.inr (by rw [hc]; rfl), hu⟩
      · exact ⟨[], c :: u, rfl, Or.inl rfl, List.not_mem_cons_of_ne_of_not_mem (Ne.symm hc) hu⟩
    | cons d s =>
      refine ⟨c :: d :: s, u, rfl, Or.inr ?_, hu⟩
      rw [endsIn, List.getLast?_cons_cons]
      exact hs.resolve_left (List.cons_ne_nil d s)

theorem lines_ne_nil {t : Text} (h : t ≠ []) : lines t ≠ [] := by
  fun_cases lines t with
  | case1 => exact absurd rfl h
  | case2 | case3 | case4 | case5 => simp

/-- A text behind one that ends its last line adds its own lines. -/
theorem lines_append {s : Text} (h : EndsLine s) (t : Text) : lines (s ++ t) = lines s ++ lines t := by
  fun_induction lines s with
  | case1 => rfl
  | case2 s ih =>
    show [] :: lines (s ++ t) = [] :: (lines s ++ lines t)
    rw [ih h.of_cons]
  | case3 s ih =>
    show [] :: lines (s ++ t) = [] :: (lines s ++ lines t)
    rw [ih h.of_cons.of_cons]
  | case4 c s hn hrn hlines ih =>
    -- Only the empty text has no lines, and then the line of `c` is still open.
    cases s with
    | nil => exact absurd (Option.some.inj (beq_iff_eq.mp (h.resolve_left (List.cons_ne_nil c [])))) hn
    | cons d s => exact absurd hlines (lines_ne_nil (List.cons_ne_nil d s))
  | case5 c s hn hrn l ls hlines ih =>
    have hs : s ≠ [] := by
      rintro rfl
      cases hlines
    have hhead : c = '\r' → (s ++ t).head? ≠ some '\n' := by
      rintro rfl hhead
      cases s with
      | nil => exact hs rfl
      | cons d s => exact hrn s rfl (by rw [Option.some.inj hhead])
    rw [List.cons_append, lines_cons_of_not_feed hn hhead, ih h.of_cons, hlines]
    rfl

/-! ### Lines behind another one -/

/-- The lines, each on a new line. -/
def onNewLines (ls : List Text) : Text := ls.flatMap ('\n' :: ·)

theorem onNewLines_nil : onNewLines [] = [] := rfl

theorem onNewLines_cons (l : Text) (ls : List Text) : onNewLines (l :: ls) = '\n' :: (l ++ onNewLines ls) := rfl

theorem onNewLines_append (ls ms : List Text) : onNewLines (ls ++ ms) = onNewLines ls ++ onNewLines ms :=
  List.flatMap_append

theorem joinWith_cons_eq (l : Text) (ls : List Text) : joinWith "\n" (l :: ls) = l ++ onNewLines ls :=
  joinWith_cons_eq_flatMap ['\n'] l ls

theorem joinWith_append {ls : List Text} (h : ls ≠ []) (ms : List Text) :
    joinWith "\n" (ls ++ ms) = joinWith "\n" ls ++ onNewLines ms := by
  obtain ⟨l, ls, rfl⟩ := List.exists_cons_of_ne_nil h
  rw [List.cons_append, joinWith_cons_eq, joinWith_cons_eq, onNewLines_append, List.append_assoc]

/-- A line that is indented by so many spaces. -/
def indented (n : Nat) (t : Text) : Text := List.replicate n ' ' ++ t

theorem isBlank_of_mem_replicate {n : Nat} {c : Char} (h : c ∈ List.replicate n ' ') : isBlank c = true := by
  rw [List.eq_of_mem_replicate h]
  rfl

theorem trimStart_replicate_append (n : Nat) (t : Text) : trimStart (List.replicate n ' ' ++ t) = trimStart t :=
  List.dropWhile_append_of_pos fun _ => isBlank_of_mem_replicate

theorem EndsUnblank.append_onNewLines {l : Text} {ls : List Text} (h : EndsUnblank l) (hs : ∀ m ∈ ls, EndsUnblank m) :
    EndsUnblank (l ++ onNewLines ls) := by
  induction ls generalizing l with
  | nil =>
    rw [onNewLines_nil, List.append_nil]
    exact h
  | cons m ls ih =>
    have hm := ih (hs m List.mem_cons_self) fun k hk => hs k (List.mem_cons_of_mem _ hk)
    rw [onNewLines_cons, ← List.singleton_append, ← List.append_assoc]
    exact hm.append _

/-- What stands before the content of a line is a line feed or a space. -/
theorem getLast?_append_indent {s : Text} {n : Nat} {c : Char} (h : c ∈ (s ++ '\n' :: List.replicate n ' ').getLast?) :
    c = '\n' ∨ c = ' ' := by
  rw [List.getLast?_append, List.getLast?_cons, List.getLast?_replicate] at h
  cases h
  split
  · exact Or.inl rfl
  · exact Or.inr rfl

theorem trim_indented (n : Nat) (t : Text) : trim (indented n t) = trim t :=
  trim_append_of_isBlank (fun _ => isBlank_of_mem_replicate) t

/-! ### Pairs of line ends -/

/-- Every pair of a carriage return and a line feed in `s` is a line feed in `t`, and nothing else differs. -/
def IsUnified (s t : Text) : Prop :=
  ∃ ls : List Text, (∀ l ∈ ls, ¬ ['\r', '\n'] <:+: l) ∧ s = joinWith ['\r', '\n'] ls ∧ t = joinWith ['\n'] ls

theorem unifyLineEnds_cons {c : Char} {t : Text} (h : c = '\r' → t.head? ≠ some '\n') :
    unifyLineEnds (c :: t) = c :: unifyLineEnds t := by
  rw [unifyLineEnds]
  rintro u rfl rfl
  exact h rfl rfl

theorem unifyLineEnds_append {l t : Text} (hl : ¬ ['\r', '\n'] <:+: l) (ht : t.head? ≠ some '\n') :
    unifyLineEnds (l ++ t) = l ++ unifyLineEnds t := by
  induction l with
  | nil => rfl
  | cons c l ih =>
    have hc : c = '\r' → (l ++ t).head? ≠ some '\n' := by
      rintro rfl hhead
      cases l with
      | nil => exact ht hhead
      | cons d l =>
        obtain rfl : d = '\n' := Option.some.inj hhead
        exact hl ⟨[], l, rfl⟩
    rw [List.cons_append, unifyLineEnds_cons hc, ih fun hin => hl (hin.trans (List.suffix_cons c l).isInfix)]
    rfl

theorem unifyLineEnds_joinWith {ls : List Text} (h : ∀ l ∈ ls, ¬ ['\r', '\n'] <:+: l) :
    unifyLineEnds (joinWith ['\r', '\n'] ls) = joinWith ['\n'] ls := by
  induction ls with
  | nil => rfl
  | cons l ls ih =>
    have hl := h l List.mem_cons_self
    by_cases hls : ls = []
    · subst hls
      have hlast := unifyLineEnds_append (t := []) hl (by simp)
      rw [List.append_nil] at hlast
      exact hlast.trans (List.append_nil l)
    · rw [joinWith_cons hls, joinWith_cons hls, List.append_assoc, unifyLineEnds_append hl (by simp),
        ← ih fun m hm => h m (List.mem_cons_of_mem _ hm), List.append_assoc]
      rfl

theorem exists_joinWith_of_unifyLineEnds (s : Text) : ∃ l ls, (∀ m ∈ l :: ls, ¬ ['\r', '\n'] <:+: m) ∧
    s = joinWith ['\r', '\n'] (l :: ls) ∧ unifyLineEnds s = joinWith ['\n'] (l :: ls) := by
  induction s using unifyLineEnds.induct with
  | case1 => exact ⟨[], [], by simp, rfl, rfl⟩
  | case2 t ih =>
    obtain ⟨l, ls, hls, hs, ht⟩ := ih
    refine ⟨[], l :: ls, by simpa using hls, ?_, ?_⟩
    · rw [joinWith_cons (by simp), ← hs]
      rfl
    · rw [joinWith_cons (by simp), ← ht]
      rfl
  | case3 c t hnot ih =>
    obtain ⟨l, ls, hls, hs, ht⟩ := ih
    refine ⟨c :: l, ls, ?_, ?_, ?_⟩
    · intro m hm hpair
      rcases List.mem_cons.mp hm with rfl | hm
      · rcases List.infix_cons_iff.mp hpair with ⟨u, hu⟩ | hinner
        · obtain ⟨rfl, rfl⟩ := List.cons.inj hu
          exact hnot _ rfl (hs.trans (joinWith_cons_cons _ _ _ _))
        · exact hls l List.mem_cons_self hinner
      · exact hls m (List.mem_cons_of_mem _ hm) hpair
    · rw [joinWith_cons_cons, ← hs]
    · rw [unifyLineEnds, joinWith_cons_cons, ht]
      exact hnot

theorem isUnified_iff {s t : Text} : IsUnified s t ↔ t = unifyLineEnds s := by
  constructor
  · rintro ⟨ls, hls, rfl, rfl⟩
    exact (unifyLineEnds_joinWith hls).symm
  · rintro rfl
    obtain ⟨l, ls, hls, hs, ht⟩ := exists_joinWith_of_unifyLineEnds s
    exact ⟨l :: ls, hls, hs, ht⟩

end EndpointAtlas.Text
