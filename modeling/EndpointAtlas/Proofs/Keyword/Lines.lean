import EndpointAtlas.Proofs.Keyword.Closing

/-! Keywords line by line. A text has the keywords of its lines, each where its line stands, and neither kind of line
    end adds one or takes one away. So the levels that are counted along the lines are those that are counted along
    the text, and a body that is open before a line is closed by the keywords of the lines from there on. -/

namespace EndpointAtlas

namespace Text

variable {o : Nat} {l t : Text}

/-! ### Lines and their places -/

/-- The lines of a text that begins at byte `o`, each with the byte at which it begins. -/
def placedLines (o : Nat) : Text → List (Nat × Text)
  | [] => []
  | '\n' :: t => (o, []) :: placedLines (o + 1) t
  | '\r' :: '\n' :: t => (o, []) :: placedLines (o + 2) t
  | c :: t =>
    match placedLines (o + c.utf8Size) t with
    | [] => [(o, [c])]
    | (_, l) :: ls => (o, c :: l) :: ls

theorem map_snd_placedLines (o : Nat) (t : Text) : (placedLines o t).map (·.2) = lines t := by
  fun_induction placedLines o t with
  | case1 => rfl
  | case2 o t ih => exact congrArg ([] :: ·) ih
  | case3 o t ih => exact congrArg ([] :: ·) ih
  | case4 o c t hn hrn hnone ih =>
    rw [lines, ← ih, hnone]
    · rfl
    · exact hn
    · exact hrn
  | case5 o c t hn hrn o' l ls hlines ih =>
    rw [lines, ← ih, hlines]
    · rfl
    · exact hn
    · exact hrn

example : (placedLines 0 "do\r\nend\n").map (·.1) = [0, 4] := by decide

theorem placedLines_of_not_mem (h : '\n' ∉ l) (hne : l ≠ []) : placedLines o l = [(o, l)] := by
  fun_induction placedLines o l with
  | case1 => exact absurd rfl hne
  | case2 o t => exact absurd List.mem_cons_self h
  | case3 o t => exact absurd (List.mem_cons_of_mem _ List.mem_cons_self) h
  | case4 o c t hn hrn hnone ih =>
    cases t with
    | nil => rfl
    | cons d t =>
      rw [ih (fun hmem => h (List.mem_cons_of_mem _ hmem)) (List.cons_ne_nil d t)] at hnone
      cases hnone
  | case5 o c t hn hrn o' l ls hlines ih =>
    have ht : t ≠ [] := by
      rintro rfl
      cases hlines
    rw [ih (fun hmem => h (List.mem_cons_of_mem _ hmem)) ht] at hlines
    cases hlines
    rfl

/-- The first line ends before the first line feed, or before the carriage return that stands there. -/
theorem placedLines_append_cons (h : '\n' ∉ l) (o : Nat) (t : Text) : ∃ m e, l = m ++ e ∧ (e = [] ∨ e = ['\r']) ∧
    placedLines o (l ++ '\n' :: t) = (o, m) :: placedLines (o + byteLength l + 1) t := by
  induction l generalizing o with
  | nil => exact ⟨[], [], rfl, Or.inl rfl, rfl⟩
  | cons c l ih =>
    rw [List.mem_cons, not_or] at h
    obtain ⟨m, e, rfl, he, hplaced⟩ := ih h.2 (o + c.utf8Size)
    by_cases hpair : c = '\r' ∧ m ++ e = []
    · obtain ⟨rfl, hnil⟩ := hpair
      obtain ⟨rfl, rfl⟩ := List.append_eq_nil_iff.mp hnil
      exact ⟨[], ['\r'], rfl, Or.inr rfl, rfl⟩
    · refine ⟨c :: m, e, rfl, he, ?_⟩
      rw [List.cons_append, placedLines, hplaced, byteLength, Nat.add_assoc o]
      · exact Ne.symm h.1
      · rintro u rfl htail
        cases hline : m ++ e with
        | nil => exact hpair ⟨rfl, hline⟩
        | cons d l =>
          rw [hline] at htail h
          cases htail
          exact h.2 List.mem_cons_self

/-- A text is one line, or a first line with its line feed and a text behind them. -/
theorem induction_on_lines {motive : Text → Prop} (last : ∀ l, '\n' ∉ l → motive l)
    (line : ∀ l t, '\n' ∉ l → motive t → motive (l ++ '\n' :: t)) (t : Text) : motive t := by
  induction h : t.length using Nat.strong_induction_on generalizing t with
  | _ n ih =>
    by_cases hfeed : '\n' ∈ t
    · obtain ⟨l, u, rfl, hl⟩ := List.eq_append_cons_of_mem hfeed
      have hshort : u.length < n := by
        rw [← h, List.length_append, List.length_cons]
        omega
      exact line l u hl (ih u.length hshort u rfl)
    · exact last t hfeed

end Text

namespace Keyword
open Text

variable {o : Nat} {last : Option Char} {inWord : Bool} {s t : Text}

/-! ### Keywords and their places -/

/-- The same keyword, so many bytes further on. -/
def Hit.moved (n : Nat) (h : Hit) : Hit := { h with offset := n + h.offset }

/-- The keywords of a line, where the line stands in its text. -/
def hitsOfLine (line : Nat × Text) : List Hit := (scan line.2).map (Hit.moved line.1)

theorem scanFrom_eq_map_moved (n o : Nat) (t : Text) :
    scanFrom (n + o) last inWord t = (scanFrom o last inWord t).map (Hit.moved n) := by
  induction t generalizing o last inWord with
  | nil => rfl
  | cons c t ih =>
    rw [scanFrom, scanFrom, Nat.add_assoc, ih]
    split
    · split <;> rfl
    · rfl

theorem scanFrom_eq_map_scan (n : Nat) (t : Text) : scanFrom n none false t = (scan t).map (Hit.moved n) :=
  scanFrom_eq_map_moved n 0 t

theorem scan_append_newline (s t : Text) :
    scan (s ++ '\n' :: t) = scan s ++ (scan t).map (Hit.moved (byteLength s + 1)) := by
  rw [scan, scanFrom_append_newline, Nat.zero_add, scanFrom_eq_map_scan (byteLength s + 1)]
  rfl

/-- A text has the keywords of its lines. -/
theorem scanFrom_eq_flatMap_placedLines (o : Nat) (t : Text) :
    scanFrom o none false t = (placedLines o t).flatMap hitsOfLine := by
  induction t using induction_on_lines generalizing o with
  | last l hl =>
    cases l with
    | nil => rfl
    | cons c l =>
      rw [placedLines_of_not_mem hl (List.cons_ne_nil c l), List.flatMap_singleton]
      exact scanFrom_eq_map_scan o _
  | line l t hl ih =>
    obtain ⟨m, e, rfl, he, hplaced⟩ := placedLines_append_cons hl o t
    have hblank : ∀ c ∈ e, isBlank c = true := by
      rcases he with rfl | rfl
      · exact List.forall_mem_nil _
      · exact List.forall_mem_singleton.mpr rfl
    rw [scanFrom_append_newline, hplaced, List.flatMap_cons, ih, scanFrom_append_of_isBlank hblank]
    exact congrArg (· ++ _) (scanFrom_eq_map_scan o m)

/-! ### Levels -/

theorem sum_depth_hitsOfLine (line : Nat × Text) :
    ((hitsOfLine line).map (·.keyword.depth)).sum = depthChange line.2 := by
  rw [hitsOfLine, List.map_map]
  rfl

theorem depthChange_lines (t : Text) : depthChange t = ((lines t).map depthChange).sum := by
  rw [depthChange, scan, scanFrom_eq_flatMap_placedLines, ← map_snd_placedLines 0 t, List.map_map]
  induction placedLines 0 t with
  | nil => rfl
  | cons line ls ih =>
    rw [List.flatMap_cons, List.map_append, List.sum_append, sum_depth_hitsOfLine, ih]
    rfl

/-- The keywords before the beginning of a line are those of the lines before it, and the others those of the lines
    from there on. -/
theorem hits_append_newline (s t : Text) : hitsWithin (s ++ '\n' :: t) 0 (byteLength s + 1) = scan s ∧
    hitsFrom (s ++ '\n' :: t) (byteLength s + 1) = (scan t).map (Hit.moved (byteLength s + 1)) := by
  have hbefore : ∀ h ∈ scan s, h.offset < byteLength s + 1 := fun h hh => by
    have hbounds := offset_of_mem_scanFrom hh
    omega
  have hbehind : ∀ h ∈ (scan t).map (Hit.moved (byteLength s + 1)), byteLength s + 1 ≤ h.offset := by
    rw [List.forall_mem_map]
    exact fun h _ => Nat.le_add_right _ _
  rw [hitsWithin, hitsFrom, scan_append_newline, List.filter_append, List.filter_append]
  constructor
  · rw [List.filter_eq_self.mpr fun h hh => by simpa using hbefore h hh,
      List.filter_eq_nil_iff.mpr fun h hh => by simpa using hbehind h hh, List.append_nil]
  · rw [List.filter_eq_nil_iff.mpr fun h hh => by simpa using hbefore h hh,
      List.filter_eq_self.mpr fun h hh => by simpa using hbehind h hh, List.nil_append]

/-- The keywords of a text are those of its lines. Two texts with a line feed between them have the keywords of the
    first and then those of the second, as many bytes further on as stand before it; so the levels of a text are
    those of its lines, whatever ends them. At the beginning of a line the levels counted along the lines before it
    are those counted along the text, and a body that is open there is closed along the lines from there on. -/
theorem keywords_of_lines :
    (∀ s t, scan (s ++ '\n' :: t) = scan s ++ (scan t).map (Hit.moved (byteLength s + 1))) ∧
    (∀ t, (placedLines 0 t).map (·.2) = lines t ∧ scan t = (placedLines 0 t).flatMap hitsOfLine ∧
      depthChange t = ((lines t).map depthChange).sum) ∧
    ∀ s t, let whole := s ++ '\n' :: t
      let start := byteLength s + 1
      ((lines s).map depthChange).sum =
        (count opener (hitsWithin whole 0 start) : Int) - count closer (hitsWithin whole 0 start) ∧
      matchingClose? whole start = closing? 1 ((placedLines start t).flatMap hitsOfLine) := by
  refine ⟨scan_append_newline, fun t => ?_, fun s t => ?_⟩
  · exact ⟨map_snd_placedLines 0 t, scanFrom_eq_flatMap_placedLines 0 t, depthChange_lines t⟩
  · intro whole start
    obtain ⟨hbefore, hbehind⟩ := hits_append_newline s t
    constructor
    · rw [hbefore, ← sum_depth_eq, ← depthChange_lines]
      rfl
    · show closing? 1 (hitsFrom whole start) = _
      rw [hbehind, ← scanFrom_eq_map_scan, scanFrom_eq_flatMap_placedLines]

end Keyword

end EndpointAtlas
