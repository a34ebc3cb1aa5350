import EndpointAtlas.Keyword
import EndpointAtlas.Proofs.Text.Lines

/-! How the keywords of a text are found: word by word within a line, and line by line. What stands on one
    line says nothing about the next, and the place where a text begins only moves the offsets. -/

namespace EndpointAtlas.Keyword
open Text

variable {o : Nat} {last : Option Char} {inWord : Bool} {s t w : Text} {c : Char}

/-! ### Word by word -/

theorem lastOnLine_of_isIdentChar (hc : isIdentChar c = true) : lastOnLine last c = some c := by
  have hbreak : c ≠ '\n' := by
    rintro rfl
    cases hc
  have hblank : isAsciiBlank c = false := by
    rw [Bool.eq_false_iff]
    intro h
    simp only [isAsciiBlank, Bool.or_eq_true, beq_iff_eq] at h
    rcases h with (((rfl | rfl) | rfl) | rfl) | rfl <;> cases hc
  rw [lastOnLine, if_neg hbreak, hblank]
  rfl

theorem scanFrom_cons_of_not_isIdentChar (hc : isIdentChar c = false) (t : Text) :
    scanFrom o last inWord (c :: t) = scanFrom (o + c.utf8Size) (lastOnLine last c) false t := by
  rw [scanFrom, hc]
  rfl

theorem scanFrom_within_word (hw : ∀ c ∈ w, isIdentChar c = true) (t : Text) :
    scanFrom o last true (w ++ t) = scanFrom (o + byteLength w) (w.getLast?.or last) true t := by
  induction w generalizing o last with
  | nil => rfl
  | cons c w ih =>
    have hc : isIdentChar c = true := hw c List.mem_cons_self
    have hlast : (c :: w).getLast?.or last = w.getLast?.or (some c) := by
      rw [List.getLast?_cons]
      cases w.getLast? <;> rfl
    rw [List.cons_append, scanFrom, hc, lastOnLine_of_isIdentChar hc, hlast, byteLength, ← Nat.add_assoc]
    exact ih fun d hd => hw d (List.mem_cons_of_mem _ hd)

theorem scanFrom_of_head (ht : ∀ c ∈ t.head?, isIdentChar c = false) :
    scanFrom o last true t = scanFrom o last false t := by
  cases t with
  | nil => rfl
  | cons c t =>
    have hc : isIdentChar c = false := ht c rfl
    rw [scanFrom_cons_of_not_isIdentChar hc, scanFrom_cons_of_not_isIdentChar hc]

/-- A whole word is a keyword or none, and the scan goes on behind it. -/
theorem scanFrom_word (hne : w ≠ []) (hw : ∀ c ∈ w, isIdentChar c = true)
    (ht : ∀ c ∈ t.head?, isIdentChar c = false) : scanFrom o last false (w ++ t) =
      ((ofWord? last w t).map (⟨o, ·⟩)).toList ++ scanFrom (o + byteLength w) w.getLast? false t := by
  have htake := takeWhile_append_of_ends hw ht
  cases w with
  | nil => exact absurd rfl hne
  | cons c w =>
    have hc : isIdentChar c = true := hw c List.mem_cons_self
    have hlater : scanFrom (o + c.utf8Size) (some c) true (w ++ t) =
        scanFrom (o + byteLength (c :: w)) (c :: w).getLast? false t := by
      have hlast : (c :: w).getLast? = w.getLast?.or (some c) := by
        rw [List.getLast?_cons]
        cases w.getLast? <;> rfl
      rw [scanFrom_within_word fun d hd => hw d (List.mem_cons_of_mem _ hd), scanFrom_of_head ht, hlast, byteLength,
        Nat.add_assoc]
    rw [List.cons_append] at htake
    rw [List.cons_append, scanFrom, htake.1, htake.2, hc, lastOnLine_of_isIdentChar hc, hlater]
    cases ofWord? last (c :: w) t <;> rfl

theorem scanFrom_replicate_space (n : Nat) (t : Text) :
    scanFrom o last false (List.replicate n ' ' ++ t) = scanFrom (o + n) last false t := by
  induction n generalizing o with
  | zero => rfl
  | succ n ih =>
    have hsize : o + 1 + n = o + (n + 1) := by omega
    rw [List.replicate_succ, List.cons_append, scanFrom_cons_of_not_isIdentChar rfl, ← hsize]
    exact ih

theorem scan_indented (n : Nat) (t : Text) : scan (indented n t) = scanFrom n none false t := by
  rw [scan, indented, scanFrom_replicate_space, Nat.zero_add]

/-! ### Texts without keywords -/

/-- A text that begins where a word may begin holds no keyword. -/
def IsQuiet (last : Option Char) (t : Text) : Prop := ∀ o, scanFrom o last false t = []

theorem isQuiet_nil : IsQuiet last [] := fun _ => rfl

theorem isQuiet_cons (hc : isIdentChar c = false) (h : IsQuiet (lastOnLine last c) t) : IsQuiet last (c :: t) := by
  intro o
  rw [scanFrom_cons_of_not_isIdentChar hc]
  exact h _

theorem isQuiet_word (hne : w ≠ []) (hw : ∀ c ∈ w, isIdentChar c = true)
    (ht : ∀ c ∈ t.head?, isIdentChar c = false) (hnone : ofWord? last w t = none) (h : IsQuiet w.getLast? t) :
    IsQuiet last (w ++ t) := by
  intro o
  rw [scanFrom_word hne hw ht, hnone, h]
  rfl

/-- What is no keyword where no statement begins is none at all but for `do` and `end`. -/
theorem ofWord?_of_not_beginsStatement (hdo : w ≠ "do") (hend : w ≠ "end") (h : beginsStatement last t = false) :
    ofWord? last w t = none := by
  rw [ofWord?, if_neg hdo, if_neg hend, h]
  rfl

/-- No keyword begins with a capital letter. -/
theorem ofWord?_of_isCapital (hc : isCapital c = true) : ofWord? last (c :: w) t = none := by
  have hkeywords : ∀ k ∈ ("do" : Text) :: "end" :: statementWords, k ≠ c :: w := by
    rintro k hk rfl
    have hfirst : ∀ k ∈ ("do" : Text) :: "end" :: statementWords, k.head?.any isCapital = false := by decide
    have hnone : isCapital c = false := hfirst _ hk
    rw [hnone] at hc
    cases hc
  simp only [List.forall_mem_cons] at hkeywords
  obtain ⟨hdo, hend, hwords⟩ := hkeywords
  have hno : statementWords.contains (c :: w) = false := by
    rw [Bool.eq_false_iff]
    exact fun h => hwords _ (List.contains_iff_mem.mp h) rfl
  rw [ofWord?, if_neg (Ne.symm hdo), if_neg (Ne.symm hend), hno, Bool.and_false]
  rfl

/-! ### Changes of the nesting -/

theorem depthChange_of_scan_eq_nil (h : scan t = []) : depthChange t = 0 := by
  rw [depthChange, h]
  rfl

theorem depthChange_of_scan_eq_singleton {k : Keyword} (h : scan t = [⟨o, k⟩]) : depthChange t = k.depth := by
  rw [depthChange, h]
  exact Int.add_zero _

/-! ### Line by line -/

theorem takeWhile_append_cons_of_neg {α : Type} {p : α → Bool} {a : α} (ha : ¬ p a = true) (s t : List α) :
    (s ++ a :: t).takeWhile p = s.takeWhile p ∧ (s ++ a :: t).dropWhile p = s.dropWhile p ++ a :: t := by
  induction s with
  | nil => exact ⟨List.takeWhile_cons_of_neg ha, List.dropWhile_cons_of_neg ha⟩
  | cons b s ih =>
    by_cases hb : p b = true
    · rw [List.cons_append, List.takeWhile_cons_of_pos hb, List.dropWhile_cons_of_pos hb, ih.1, ih.2,
        List.takeWhile_cons_of_pos hb, List.dropWhile_cons_of_pos hb]
      exact ⟨rfl, rfl⟩
    · rw [List.cons_append, List.takeWhile_cons_of_neg hb, List.dropWhile_cons_of_neg hb,
        List.takeWhile_cons_of_neg hb, List.dropWhile_cons_of_neg hb]
      exact ⟨rfl, rfl⟩

theorem isHashKey_append_cons (hc : c ≠ ':') (s t : Text) : isHashKey (s ++ c :: t) = isHashKey s := by
  match s with
  | [] => simp [isHashKey, hc]
  | [d] =>
    by_cases hd : d = ':'
    · simp [isHashKey, hd, hc]
    · simp [isHashKey, hd]
  | d :: e :: s =>
    by_cases hd : d = ':'
    · by_cases he : e = ':'
      · rw [hd, he]
        rfl
      · simp [isHashKey, hd, he]
    · simp [isHashKey, hd]

theorem ofWord?_append_cons (hc : c ≠ ':') (last : Option Char) (w s t : Text) :
    ofWord? last w (s ++ c :: t) = ofWord? last w s := by
  unfold ofWord? beginsStatement
  rw [isHashKey_append_cons hc]

/-- A new line is read like a new text. -/
theorem scanFrom_append_newline (s t : Text) : scanFrom o last inWord (s ++ '\n' :: t) =
    scanFrom o last inWord s ++ scanFrom (o + byteLength s + 1) none false t := by
  induction s generalizing o last inWord with
  | nil => exact scanFrom_cons_of_not_isIdentChar rfl t
  | cons c s ih =>
    -- A word ends with its line at the latest, and so does what tells whether it is a keyword.
    have hsplit := takeWhile_append_cons_of_neg (p := isIdentChar) (a := '\n') (by decide) (c :: s) t
    rw [List.cons_append] at hsplit
    rw [List.cons_append, scanFrom, scanFrom, hsplit.1, hsplit.2, ofWord?_append_cons (by decide), ih, byteLength,
      Nat.add_assoc o]
    split
    · split <;> rfl
    · rfl

/-- Lines without keywords only move what follows them. -/
theorem scanFrom_append_quiet {ls : List Text} (h : ∀ l ∈ ls, IsQuiet none l) (s t : Text) :
    scanFrom o last inWord (s ++ (onNewLines ls ++ '\n' :: t)) =
      scanFrom o last inWord s ++ scanFrom (o + byteLength (s ++ onNewLines ls) + 1) none false t := by
  induction ls generalizing o last inWord s with
  | nil =>
    rw [onNewLines_nil, List.append_nil]
    exact scanFrom_append_newline s t
  | cons l ls ih =>
    have hl : scanFrom (o + byteLength s + 1) none false l = [] := h l List.mem_cons_self _
    have hsize : o + byteLength s + 1 + byteLength (l ++ onNewLines ls) + 1 =
        o + byteLength (s ++ onNewLines (l :: ls)) + 1 := by
      have hbreak : byteLength ('\n' :: (l ++ onNewLines ls)) = 1 + byteLength (l ++ onNewLines ls) := rfl
      rw [onNewLines_cons, byteLength_append s, hbreak]
      omega
    rw [onNewLines_cons, List.cons_append, List.append_assoc, scanFrom_append_newline,
      ih (fun m hm => h m (List.mem_cons_of_mem _ hm)), hl, hsize]
    rfl

theorem offset_of_mem_scanFrom {h : Hit} (hh : h ∈ scanFrom o last inWord t) :
    o ≤ h.offset ∧ h.offset < o + byteLength t := by
  induction t generalizing o last inWord with
  | nil => cases hh
  | cons c t ih =>
    have hsize : 0 < c.utf8Size := Char.utf8Size_pos c
    have hlater : h ∈ scanFrom (o + c.utf8Size) (lastOnLine last c) (isIdentChar c) t →
        o ≤ h.offset ∧ h.offset < o + byteLength (c :: t) := by
      intro hh
      have hbounds := ih hh
      rw [byteLength]
      omega
    rw [scanFrom] at hh
    split at hh
    · split at hh
      · rcases List.mem_cons.mp hh with rfl | hh
        · rw [byteLength]
          exact ⟨Nat.le_refl _, by dsimp only; omega⟩
        · exact hlater hh
      · exact hlater hh
    · exact hlater hh

/-- Where lines without keywords follow, the body is closed by what comes behind them. -/
theorem matchingClose?_append_quiet {ls : List Text} (h : ∀ l ∈ ls, IsQuiet none l) (s t : Text) :
    matchingClose? (s ++ (onNewLines ls ++ '\n' :: t)) (byteLength s) =
      closing? 1 (scanFrom (byteLength (s ++ onNewLines ls) + 1) none false t) := by
  have hbefore : (scanFrom 0 none false s).filter (byteLength s ≤ ·.offset) = [] := by
    rw [List.filter_eq_nil_iff]
    intro k hk
    have hbounds := offset_of_mem_scanFrom hk
    simp only [decide_eq_true_iff]
    omega
  have hbehind : (scanFrom (0 + byteLength (s ++ onNewLines ls) + 1) none false t).filter (byteLength s ≤ ·.offset) =
      scanFrom (0 + byteLength (s ++ onNewLines ls) + 1) none false t := by
    rw [List.filter_eq_self]
    intro k hk
    have hbounds := offset_of_mem_scanFrom hk
    rw [byteLength_append] at hbounds
    simp only [decide_eq_true_iff]
    omega
  rw [matchingClose?, scan, scanFrom_append_quiet h, List.filter_append, hbefore, hbehind, Nat.zero_add]
  rfl

end EndpointAtlas.Keyword
