import EndpointAtlas.Text.Blank
import Mathlib.Data.List.TakeWhile

/-! Runs in front of a text, and blanks at its ends and within it. Trimming the front, trimming the end and squeezing
    runs of blanks may be done in any order and any number of times. -/

namespace EndpointAtlas.Text

/-! ### A run in front -/

section Run
variable {α : Type} {p : α → Bool} {a : α} {run rest : List α}

/-- A run that ends is taken whole, and nothing behind it. -/
theorem takeWhile_append_of_ends (hrun : ∀ a ∈ run, p a = true) (hrest : ∀ a ∈ rest.head?, p a = false) :
    (run ++ rest).takeWhile p = run ∧ (run ++ rest).dropWhile p = rest := by
  rw [List.takeWhile_append_of_pos hrun, List.dropWhile_append_of_pos hrun]
  cases rest with
  | nil => exact ⟨List.append_nil run, rfl⟩
  | cons a rest =>
    have ha : ¬ p a = true := by simp [hrest a rfl]
    rw [List.takeWhile_cons_of_neg ha, List.dropWhile_cons_of_neg ha]
    exact ⟨List.append_nil run, rfl⟩

theorem eq_false_of_mem_head?_dropWhile (h : a ∈ (rest.dropWhile p).head?) : p a = false := by
  have hhead := List.head?_dropWhile_not p rest
  rwa [Option.mem_def.mp h] at hhead

end Run

theorem isBlank_space : isBlank ' ' = true := rfl

/-! ### Trimming -/

theorem trimStart_cons_of_isBlank {c : Char} (h : isBlank c = true) (t : Text) : trimStart (c :: t) = trimStart t :=
  List.dropWhile_cons_of_pos h

theorem trimStart_cons_of_not_isBlank {c : Char} (h : isBlank c = false) (t : Text) : trimStart (c :: t) = c :: t :=
  List.dropWhile_cons_of_neg (by simp [h])

theorem trimStart_append {s : Text} (h : trimStart s ≠ []) (t : Text) : trimStart (s ++ t) = trimStart s ++ t := by
  have hne : ¬ (s.dropWhile isBlank).isEmpty = true := fun hempty => h (List.isEmpty_iff.mp hempty)
  rw [trimStart, List.dropWhile_append, if_neg hne, trimStart]

/-- Blanks before a text that begins with none are trimmed alone. -/
theorem trimStart_append_of_isBlank {s t : Text} (hs : ∀ c ∈ s, isBlank c = true)
    (ht : ∀ c ∈ t.head?, isBlank c = false) : trimStart (s ++ t) = t :=
  (takeWhile_append_of_ends hs ht).2

theorem trimEnd_cons (c : Char) (t : Text) :
    trimEnd (c :: t) = if isBlank c = true ∧ trimEnd t = [] then [] else c :: trimEnd t := by
  rw [trimEnd]
  cases trimEnd t with
  | nil => by_cases hc : isBlank c = true <;> simp [hc]
  | cons d u => simp

theorem trimEnd_trimEnd (t : Text) : trimEnd (trimEnd t) = trimEnd t := by
  induction t with
  | nil => rfl
  | cons c t ih =>
    by_cases h : isBlank c = true ∧ trimEnd t = []
    · rw [trimEnd_cons, if_pos h]
      rfl
    · rw [trimEnd_cons c t, if_neg h, trimEnd_cons, ih, if_neg h]

theorem trimStart_trimEnd (t : Text) : trimStart (trimEnd t) = trimEnd (trimStart t) := by
  induction t with
  | nil => rfl
  | cons c t ih =>
    by_cases hc : isBlank c = true
    · rw [trimStart_cons_of_isBlank hc, ← ih, trimEnd_cons]
      by_cases h : isBlank c = true ∧ trimEnd t = []
      · rw [if_pos h, h.2]
      · rw [if_neg h, trimStart_cons_of_isBlank hc]
    · rw [Bool.not_eq_true] at hc
      rw [trimStart_cons_of_not_isBlank hc, trimEnd_cons, if_neg fun h => by simp [hc] at h,
        trimStart_cons_of_not_isBlank hc]

theorem trimStart_trimStart (t : Text) : trimStart (trimStart t) = trimStart t := by
  induction t with
  | nil => rfl
  | cons c t ih =>
    by_cases hc : isBlank c = true
    · rw [trimStart_cons_of_isBlank hc, ih]
    · rw [Bool.not_eq_true] at hc
      rw [trimStart_cons_of_not_isBlank hc, trimStart_cons_of_not_isBlank hc]

theorem trim_trim (t : Text) : trim (trim t) = trim t := by
  unfold trim
  rw [trimStart_trimEnd, trimStart_trimStart, trimEnd_trimEnd]

theorem trimEnd_append {t : Text} (h : trimEnd t ≠ []) (s : Text) : trimEnd (s ++ t) = s ++ trimEnd t := by
  induction s with
  | nil => rfl
  | cons c s ih => rw [List.cons_append, trimEnd_cons, ih, if_neg (by simp [h]), List.cons_append]

theorem trimEnd_concat_of_isBlank {c : Char} (hc : isBlank c = true) (t : Text) : trimEnd (t ++ [c]) = trimEnd t := by
  induction t with
  | nil => rw [List.nil_append, trimEnd_cons, if_pos ⟨hc, rfl⟩, trimEnd]
  | cons d t ih => rw [List.cons_append, trimEnd_cons, ih, ← trimEnd_cons]

theorem trim_concat_of_isBlank {c : Char} (hc : isBlank c = true) (t : Text) : trim (t ++ [c]) = trim t := by
  unfold trim
  rw [← trimStart_trimEnd, ← trimStart_trimEnd, trimEnd_concat_of_isBlank hc]

theorem trimEnd_concat_of_not_isBlank {c : Char} (hc : isBlank c = false) (t : Text) :
    trimEnd (t ++ [c]) = t ++ [c] := by
  induction t with
  | nil => rw [List.nil_append, trimEnd_cons, if_neg (by simp [hc]), trimEnd]
  | cons d t ih => rw [List.cons_append, trimEnd_cons, ih, if_neg (by simp)]

theorem trim_append_of_isBlank {s : Text} (h : ∀ c ∈ s, isBlank c = true) (t : Text) : trim (s ++ t) = trim t := by
  unfold trim trimStart
  rw [List.dropWhile_append_of_pos h]

theorem trimEnd_append_of_isBlank {s : Text} (h : ∀ c ∈ s, isBlank c = true) (t : Text) :
    trimEnd (t ++ s) = trimEnd t := by
  induction s generalizing t with
  | nil => rw [List.append_nil]
  | cons c s ih =>
    rw [← List.singleton_append, ← List.append_assoc, ih (fun d hd => h d (List.mem_cons_of_mem _ hd)),
      trimEnd_concat_of_isBlank (h c List.mem_cons_self)]

theorem trim_append_right_of_isBlank {s : Text} (h : ∀ c ∈ s, isBlank c = true) (t : Text) : trim (t ++ s) = trim t := by
  unfold trim
  rw [← trimStart_trimEnd, ← trimStart_trimEnd, trimEnd_append_of_isBlank h]

theorem exists_append_trimEnd (t : Text) : ∃ s, t = trimEnd t ++ s ∧ ∀ c ∈ s, isBlank c = true := by
  induction t with
  | nil => exact ⟨[], rfl, fun _ hc => nomatch hc⟩
  | cons c t ih =>
    obtain ⟨s, hs, hblank⟩ := ih
    rw [trimEnd_cons]
    by_cases h : isBlank c = true ∧ trimEnd t = []
    · rw [h.2] at hs
      refine ⟨c :: s, ?_, List.forall_mem_cons.mpr ⟨h.1, hblank⟩⟩
      rw [if_pos h, hs]
      rfl
    · refine ⟨s, ?_, hblank⟩
      rw [if_neg h, List.cons_append, ← hs]

/-- A text is its trimmed form between blanks. -/
theorem exists_append_trim (t : Text) :
    ∃ s u, t = s ++ (trim t ++ u) ∧ (∀ c ∈ s, isBlank c = true) ∧ ∀ c ∈ u, isBlank c = true := by
  obtain ⟨u, hu, hblank⟩ := exists_append_trimEnd (trimStart t)
  refine ⟨t.takeWhile isBlank, u, ?_, fun c hc => (List.mem_takeWhile_imp hc), hblank⟩
  rw [trim, ← hu, trimStart, List.takeWhile_append_dropWhile]

/-- `t` ends with a character that is no blank. -/
def EndsUnblank (t : Text) : Prop := ∃ s c, t = s ++ [c] ∧ isBlank c = false

theorem EndsUnblank.append {t : Text} (h : EndsUnblank t) (s : Text) : EndsUnblank (s ++ t) := by
  obtain ⟨u, c, rfl, hc⟩ := h
  exact ⟨s ++ u, c, by rw [List.append_assoc], hc⟩

theorem trimEnd_of_endsUnblank {t : Text} (h : EndsUnblank t) : trimEnd t = t := by
  obtain ⟨s, c, rfl, hc⟩ := h
  exact trimEnd_concat_of_not_isBlank hc s

/-- Blanks behind a text that ends with none are trimmed alone. -/
theorem trimEnd_append_of_endsUnblank {s : Text} (h : EndsUnblank s) (t : Text) :
    trimEnd (s ++ t) = s ++ trimEnd t := by
  obtain ⟨u, c, rfl, hc⟩ := h
  induction u with
  | nil => rw [List.nil_append, List.singleton_append, trimEnd_cons, if_neg (by simp [hc]), List.singleton_append]
  | cons d u ih =>
    rw [List.cons_append, List.cons_append, trimEnd_cons, ih, if_neg (by simp), List.cons_append]

/-- A text without a blank at either end is left as it is. -/
theorem trim_of_endsUnblank {t : Text} (hfirst : ∀ c ∈ t.head?, isBlank c = false) (hlast : EndsUnblank t) :
    trim t = t := by
  have hstart : trimStart t = t := by
    cases t with
    | nil => rfl
    | cons c t => exact trimStart_cons_of_not_isBlank (hfirst c rfl) t
  rw [trim, hstart, trimEnd_of_endsUnblank hlast]

/-! ### Squeezing -/

theorem squeezeBlanks_cons_of_not_isBlank {c : Char} (h : isBlank c = false) (t : Text) :
    squeezeBlanks (c :: t) = c :: squeezeBlanks t := by
  simp [squeezeBlanks, h]

theorem squeezeBlanks_cons_cons_of_isBlank {c d : Char} (hc : isBlank c = true) (hd : isBlank d = true) (t : Text) :
    squeezeBlanks (c :: d :: t) = squeezeBlanks (d :: t) := by
  rw [squeezeBlanks, if_pos hc]
  simp only [hd, if_true]

theorem squeezeBlanks_cons_cons_of_not_isBlank {c d : Char} (hc : isBlank c = true) (hd : isBlank d = false)
    (t : Text) : squeezeBlanks (c :: d :: t) = ' ' :: d :: squeezeBlanks t := by
  rw [squeezeBlanks, if_pos hc]
  simp only [hd, Bool.false_eq_true, if_false, squeezeBlanks_cons_of_not_isBlank]

theorem squeezeBlanks_singleton_of_isBlank {c : Char} (hc : isBlank c = true) : squeezeBlanks [c] = [' '] := by
  rw [squeezeBlanks, if_pos hc]

theorem squeezeBlanks_squeezeBlanks (t : Text) : squeezeBlanks (squeezeBlanks t) = squeezeBlanks t := by
  induction t with
  | nil => rfl
  | cons c t ih =>
    by_cases hc : isBlank c = true
    · cases t with
      | nil =>
        rw [squeezeBlanks_singleton_of_isBlank hc]
        rfl
      | cons d t =>
        by_cases hd : isBlank d = true
        · rw [squeezeBlanks_cons_cons_of_isBlank hc hd, ih]
        · rw [Bool.not_eq_true] at hd
          rw [squeezeBlanks_cons_of_not_isBlank hd, squeezeBlanks_cons_of_not_isBlank hd] at ih
          rw [squeezeBlanks_cons_cons_of_not_isBlank hc hd, squeezeBlanks_cons_cons_of_not_isBlank isBlank_space hd,
            List.tail_eq_of_cons_eq ih]
    · rw [Bool.not_eq_true] at hc
      rw [squeezeBlanks_cons_of_not_isBlank hc, squeezeBlanks_cons_of_not_isBlank hc, ih]

theorem squeezeBlanks_append_of_not_isBlank {s : Text} (h : ∀ c ∈ s, isBlank c = false) (t : Text) :
    squeezeBlanks (s ++ t) = s ++ squeezeBlanks t := by
  induction s with
  | nil => rfl
  | cons c s ih =>
    obtain ⟨hc, hs⟩ := List.forall_mem_cons.mp h
    rw [List.cons_append, squeezeBlanks_cons_of_not_isBlank hc, ih hs, List.cons_append]

/-- A run of blanks becomes one space. -/
theorem squeezeBlanks_append_cons {s : Text} (hne : s ≠ []) (h : ∀ c ∈ s, isBlank c = true) {d : Char}
    (hd : isBlank d = false) (t : Text) : squeezeBlanks (s ++ d :: t) = ' ' :: squeezeBlanks (d :: t) := by
  induction s with
  | nil => exact absurd rfl hne
  | cons c s ih =>
    obtain ⟨hc, hs⟩ := List.forall_mem_cons.mp h
    cases s with
    | nil =>
      rw [List.singleton_append, squeezeBlanks_cons_cons_of_not_isBlank hc hd, squeezeBlanks_cons_of_not_isBlank hd]
    | cons e s =>
      rw [List.cons_append, List.cons_append, squeezeBlanks_cons_cons_of_isBlank hc (hs e List.mem_cons_self)]
      exact ih (List.cons_ne_nil e s) hs

/-- The only blank that is left is the space. -/
theorem isBlank_of_mem_squeezeBlanks {t : Text} : ∀ c ∈ squeezeBlanks t, isBlank c = false ∨ c = ' ' := by
  induction t with
  | nil => exact fun c hc => nomatch hc
  | cons c t ih =>
    by_cases hc : isBlank c = true
    · cases t with
      | nil =>
        rw [squeezeBlanks_singleton_of_isBlank hc]
        exact fun d hd => Or.inr (List.mem_singleton.mp hd)
      | cons d t =>
        by_cases hd : isBlank d = true
        · rwa [squeezeBlanks_cons_cons_of_isBlank hc hd]
        · rw [Bool.not_eq_true] at hd
          rw [squeezeBlanks_cons_cons_of_not_isBlank hc hd, ← squeezeBlanks_cons_of_not_isBlank hd]
          exact List.forall_mem_cons.mpr ⟨Or.inr rfl, ih⟩
    · rw [Bool.not_eq_true] at hc
      rw [squeezeBlanks_cons_of_not_isBlank hc]
      exact List.forall_mem_cons.mpr ⟨Or.inl hc, ih⟩

theorem trimStart_squeezeBlanks (t : Text) : trimStart (squeezeBlanks t) = squeezeBlanks (trimStart t) := by
  induction t with
  | nil => rfl
  | cons c t ih =>
    by_cases hc : isBlank c = true
    · rw [trimStart_cons_of_isBlank hc]
      cases t with
      | nil =>
        rw [squeezeBlanks_singleton_of_isBlank hc]
        rfl
      | cons d t =>
        by_cases hd : isBlank d = true
        · rw [squeezeBlanks_cons_cons_of_isBlank hc hd, ih]
        · rw [Bool.not_eq_true] at hd
          rw [squeezeBlanks_cons_cons_of_not_isBlank hc hd, trimStart_cons_of_isBlank isBlank_space,
            ← squeezeBlanks_cons_of_not_isBlank hd, ih]
    · rw [Bool.not_eq_true] at hc
      rw [squeezeBlanks_cons_of_not_isBlank hc, trimStart_cons_of_not_isBlank hc, trimStart_cons_of_not_isBlank hc,
        squeezeBlanks_cons_of_not_isBlank hc]

theorem trimEnd_squeezeBlanks (t : Text) : trimEnd (squeezeBlanks t) = squeezeBlanks (trimEnd t) := by
  induction t with
  | nil => rfl
  | cons c t ih =>
    by_cases hc : isBlank c = true
    · cases t with
      | nil =>
        rw [squeezeBlanks_singleton_of_isBlank hc, trimEnd_cons, trimEnd_cons, if_pos ⟨rfl, rfl⟩, if_pos ⟨hc, rfl⟩]
        rfl
      | cons d t =>
        by_cases hd : isBlank d = true
        · rw [squeezeBlanks_cons_cons_of_isBlank hc hd, ih, trimEnd_cons c]
          by_cases h : isBlank d = true ∧ trimEnd t = []
          · rw [trimEnd_cons d, if_pos h, if_pos ⟨hc, rfl⟩]
          · rw [trimEnd_cons d, if_neg h, if_neg (by simp), squeezeBlanks_cons_cons_of_isBlank hc hd]
        · rw [Bool.not_eq_true] at hd
          have hne : ¬(isBlank d = true ∧ trimEnd t = []) := fun h => by simp [hd] at h
          rw [squeezeBlanks_cons_of_not_isBlank hd, trimEnd_cons d t, if_neg hne,
            squeezeBlanks_cons_of_not_isBlank hd] at ih
          rw [squeezeBlanks_cons_cons_of_not_isBlank hc hd, trimEnd_cons, ih, if_neg (by simp), trimEnd_cons c,
            trimEnd_cons d, if_neg hne, if_neg (by simp), squeezeBlanks_cons_cons_of_not_isBlank hc hd]
    · rw [Bool.not_eq_true] at hc
      have hne : ∀ u : Text, ¬(isBlank c = true ∧ u = []) := fun _ h => by simp [hc] at h
      rw [squeezeBlanks_cons_of_not_isBlank hc, trimEnd_cons, if_neg (hne _), ih, trimEnd_cons, if_neg (hne _),
        squeezeBlanks_cons_of_not_isBlank hc]

theorem trim_squeezeBlanks (t : Text) : trim (squeezeBlanks t) = squeezeBlanks (trim t) := by
  unfold trim
  rw [trimStart_squeezeBlanks, trimEnd_squeezeBlanks]

end EndpointAtlas.Text
