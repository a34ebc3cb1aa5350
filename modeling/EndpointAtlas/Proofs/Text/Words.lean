import EndpointAtlas.Proofs.Text.Find
import EndpointAtlas.Proofs.Text.Lines
import EndpointAtlas.Text.Letter

/-! The words of a text: its runs of word characters. A pattern that begins with a whole word is not met
    where that word does not stand. -/

namespace EndpointAtlas.Text

/-- The runs of characters with the property `p`. -/
def runs (p : Char → Bool) (t : Text) : List Text := (t.splitOnP fun c => !p c).filter (!·.isEmpty)

/-- The runs of word characters. -/
def words (t : Text) : List Text := (t.splitOnP fun c => !isWordChar c).filter (!·.isEmpty)

variable {p : Char → Bool} {s t w : Text} {c : Char}

theorem runs_append_cons (hc : p c = false) (s t : Text) : runs p (s ++ c :: t) = runs p s ++ runs p t := by
  unfold runs
  rw [List.splitOnP_append_cons _ _ (by simp [hc]), List.filter_append]

theorem runs_of_forall (hne : w ≠ []) (hw : ∀ c ∈ w, p c = true) : runs p w = [w] := by
  rw [runs, List.splitOnP_eq_singleton fun c hc => by simp [hw c hc]]
  simp [hne]

theorem runs_append (hne : w ≠ []) (hw : ∀ c ∈ w, p c = true) (ht : ∀ c ∈ t.head?, p c = false) :
    runs p (w ++ t) = w :: runs p t := by
  cases t with
  | nil =>
    rw [List.append_nil, runs_of_forall hne hw]
    rfl
  | cons c t =>
    have hc : p c = false := ht c rfl
    rw [runs_append_cons hc, runs_of_forall hne hw]
    exact congrArg (w :: ·) (runs_append_cons hc [] t).symm

theorem words_append_cons (hc : isWordChar c = false) (s t : Text) : words (s ++ c :: t) = words s ++ words t :=
  runs_append_cons hc s t

theorem words_cons (hc : isWordChar c = false) (t : Text) : words (c :: t) = words t :=
  words_append_cons hc [] t

theorem words_replicate_append (hc : isWordChar c = false) (n : Nat) (t : Text) :
    words (List.replicate n c ++ t) = words t := by
  induction n with
  | zero => rfl
  | succ n ih => rw [List.replicate_succ, List.cons_append, words_cons hc, ih]

/-- Gaps between the word characters beyond ASCII, which hold the blanks. -/
def blankGaps : List (Nat × Nat) :=
  [(0x80, 0xA9), (0x1680, 0x1680), (0x2000, 0x200B), (0x200E, 0x203E), (0x205F, 0x2070), (0x3000, 0x3004)]

set_option maxRecDepth 4000 in
theorem apart_of_mem_blankGaps : ∀ gap ∈ blankGaps, ∀ r ∈ wordRanges, ¬ (r.1 ≤ gap.2 ∧ gap.1 ≤ r.2) := by decide

theorem isWordChar_of_isBlank (hc : isBlank c = true) : isWordChar c = false := by
  have hcode : c.toNat ∈ blankCodes := List.contains_iff_mem.mp hc
  have hplaces : ∀ n ∈ blankCodes, isIdentChar (Char.ofNat n) = false ∧
      (n < 0x80 ∨ ∃ gap ∈ blankGaps, gap.1 ≤ n ∧ n ≤ gap.2) := by decide
  obtain ⟨hident, hplace⟩ := hplaces _ hcode
  rw [Char.ofNat_toNat] at hident
  rw [isWordChar, hident, Bool.false_or, Bool.and_eq_false_iff, decide_eq_false_iff_not, inRanges, List.any_eq_false]
  rcases hplace with hlow | ⟨gap, hgap, hlo, hhi⟩
  · exact Or.inl (Nat.not_le_of_lt hlow)
  · refine Or.inr fun r hr hin => ?_
    rw [Bool.and_eq_true, decide_eq_true_iff, decide_eq_true_iff] at hin
    exact apart_of_mem_blankGaps gap hgap r hr ⟨Nat.le_trans hin.1 hhi, Nat.le_trans hlo hin.2⟩

theorem IsWord.isBlank_eq_false {w : Text} (h : IsWord w) : ∀ c ∈ w, isBlank c = false := by
  intro c hc
  rw [Bool.eq_false_iff]
  intro hblank
  have hword : isWordChar c = true := h.2 c hc
  rw [isWordChar_of_isBlank hblank] at hword
  cases hword

theorem IsWord.isBlank_head {w : Text} (h : IsWord w) (t : Text) : ∀ c ∈ (w ++ t).head?, isBlank c = false := by
  obtain ⟨c, w, rfl⟩ := List.exists_cons_of_ne_nil h.1
  rintro _ ⟨⟩
  exact h.isBlank_eq_false c List.mem_cons_self

theorem IsWord.endsUnblank {w : Text} (h : IsWord w) : EndsUnblank w := by
  obtain ⟨s, c, rfl⟩ := (List.eq_nil_or_concat w).resolve_left h.1
  exact ⟨s, c, List.concat_eq_append, h.isBlank_eq_false c (by simp)⟩

theorem IsWord.trim_eq {w : Text} (h : IsWord w) : trim w = w :=
  trim_of_endsUnblank (fun c hc => h.isBlank_eq_false c (List.mem_of_mem_head? hc)) h.endsUnblank

theorem IsWord.not_mem {w : Text} (h : IsWord w) {c : Char} (hc : isWordChar c = false) : c ∉ w := fun hmem => by
  rw [h.2 c hmem] at hc
  cases hc

theorem isIdentChar_of_isBlank (hc : isBlank c = true) : isIdentChar c = false := by
  rw [Bool.eq_false_iff]
  intro hident
  have hword := isWordChar_of_isIdentChar hident
  rw [isWordChar_of_isBlank hc] at hword
  cases hword

theorem words_word_cons (hne : w ≠ []) (hw : ∀ d ∈ w, isWordChar d = true) (hc : isWordChar c = false) (t : Text) :
    words (w ++ c :: t) = w :: words t := by
  rw [words_append_cons hc]
  exact congrArg (· ++ words t) (runs_of_forall hne hw)

theorem words_append_onNewLines (l : Text) (ls : List Text) : words (l ++ onNewLines ls) = words l ++ ls.flatMap words := by
  induction ls generalizing l with
  | nil => rw [onNewLines_nil, List.append_nil, List.flatMap_nil, List.append_nil]
  | cons m ls ih => rw [onNewLines_cons, words_append_cons rfl, ih, List.flatMap_cons]

/-- What follows a place where a word may begin has no words of its own. -/
theorem words_subset_of_startsWord {u v : Text} (h : startsWord u.getLast? = true) : words v ⊆ words (u ++ v) := by
  rcases List.eq_nil_or_concat u with rfl | ⟨u, e, rfl⟩
  · exact List.Subset.refl _
  · have he : isWordChar e = false := by simpa [startsWord] using h
    rw [List.concat_eq_append, List.append_assoc, List.singleton_append, words_append_cons he]
    exact List.subset_append_right _ _

/-- A pattern that begins with the whole word `w` is met nowhere in a text that lacks `w` and does not end
    within a word. -/
theorem misses_of_not_mem_words {α : Type} {r : Reader α}
    (hr : ∀ b u x, r b u = some x → startsWord b = true ∧ ∃ rest, u = w ++ rest ∧ endsWord rest = true)
    (hne : w ≠ []) (hw : ∀ d ∈ w, isWordChar d = true) (hs : ∀ d ∈ s.getLast?, isWordChar d = false)
    (h : w ∉ words s) : Misses r none s t := by
  refine misses_of_split fun u d v hsplit => ?_
  rw [Option.eq_none_iff_forall_ne_some]
  intro x hx
  obtain ⟨hstart, rest, hrest, hend⟩ := hr _ _ x hx
  rw [Option.or_none] at hstart
  -- The last character of `s` is none of a word, and so not within `w`.
  have hlast : ∀ y, w ≠ d :: v ++ y := by
    rintro y rfl
    have hmem : (d :: v).getLast (List.cons_ne_nil d v) ∈ d :: v := List.getLast_mem _
    have hnot : isWordChar ((d :: v).getLast (List.cons_ne_nil d v)) = false := hs _ (by
      rw [hsplit, List.getLast?_append, List.getLast?_eq_some_getLast (List.cons_ne_nil d v)]
      rfl)
    rw [hw _ (List.mem_append_left _ hmem)] at hnot
    cases hnot
  have hmem : w ∈ words (d :: v) := by
    rw [← List.cons_append] at hrest
    rcases List.append_eq_append_iff.mp hrest with ⟨y, hy, -⟩ | ⟨y, hy, hyt⟩
    · exact absurd hy (hlast y)
    · cases y with
      | nil => exact absurd (by rw [hy, List.append_nil, List.append_nil]) (hlast [])
      | cons e y =>
        have he : isWordChar e = false := by
          rw [hyt] at hend
          simpa [endsWord] using hend
        rw [hy, words_word_cons hne hw he]
        exact List.mem_cons_self
  rw [hsplit] at h
  exact h (words_subset_of_startsWord hstart hmem)

end EndpointAtlas.Text
