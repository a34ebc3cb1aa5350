import EndpointAtlas.Proofs.Keyword.Shape

/-! The `end` that closes a body. Along the keywords behind the opening of the body, bodies are opened and closed;
    the body ends at the first `end` that closes more than was opened since, and goes on for ever where there is
    none. The offsets of keywords grow along a text, so that the place of an `end` tells what stands before it. -/

namespace EndpointAtlas.Keyword
open Text

variable {o n start stop : Nat} {last : Option Char} {inWord : Bool} {s t w : Text} {h : Hit}
  {hits before after : List Hit}

/-! ### Keywords between two places -/

/-- The keywords of a text from byte `start` on. -/
def hitsFrom (t : Text) (start : Nat) : List Hit := (scan t).filter (start ≤ ·.offset)

/-- The keywords of a text from byte `start` on and before byte `stop`. -/
def hitsWithin (t : Text) (start stop : Nat) : List Hit :=
  (scan t).filter fun h => start ≤ h.offset && h.offset < stop

theorem hitsWithin_eq (t : Text) (start stop : Nat) :
    hitsWithin t start stop = (hitsFrom t start).filter (·.offset < stop) := by
  rw [hitsFrom, List.filter_filter, hitsWithin]
  exact List.filter_congr fun h _ => Bool.and_comm _ _

theorem pairwise_offset_scanFrom (t : Text) : (scanFrom o last inWord t).Pairwise (·.offset < ·.offset) := by
  induction t generalizing o last inWord with
  | nil => exact List.Pairwise.nil
  | cons c t ih =>
    have hsize : 0 < c.utf8Size := Char.utf8Size_pos c
    rw [scanFrom]
    split
    · split
      · refine List.pairwise_cons.mpr ⟨fun h hh => ?_, ih⟩
        have hbounds := offset_of_mem_scanFrom hh
        dsimp only
        omega
      · exact ih
    · exact ih

theorem filter_offset_lt (hsorted : (before ++ h :: after).Pairwise (·.offset < ·.offset)) :
    (before ++ h :: after).filter (·.offset < h.offset) = before := by
  obtain ⟨-, hafter, hbefore⟩ := List.pairwise_append.mp hsorted
  have hself : ∀ k ∈ before, decide (k.offset < h.offset) = true := fun k hk =>
    decide_eq_true (hbefore k hk h List.mem_cons_self)
  have hnone : ∀ k ∈ h :: after, ¬ decide (k.offset < h.offset) = true := by
    intro k hk
    rw [decide_eq_true_iff, Nat.not_lt]
    rcases List.mem_cons.mp hk with rfl | hk
    · exact Nat.le_refl _
    · exact Nat.le_of_lt ((List.pairwise_cons.mp hafter).1 k hk)
  rw [List.filter_append, List.filter_eq_self.mpr hself, List.filter_eq_nil_iff.mpr hnone, List.append_nil]

/-- The keywords from a place on are those of the text that stands there. -/
theorem filter_scanFrom_append (s t : Text) : (scanFrom o last inWord (s ++ t)).filter (o + byteLength s ≤ ·.offset) =
    scanFrom (o + byteLength s) (s.foldl lastOnLine last) (s.getLast?.elim inWord isIdentChar) t := by
  induction s generalizing o last inWord with
  | nil => exact List.filter_eq_self.mpr fun k hk => decide_eq_true (offset_of_mem_scanFrom hk).1
  | cons c s ih =>
    have hsize : 0 < c.utf8Size := Char.utf8Size_pos c
    have hlater := @ih (o + c.utf8Size) (lastOnLine last c) (isIdentChar c)
    have hlast : (c :: s).getLast?.elim inWord isIdentChar = s.getLast?.elim (isIdentChar c) isIdentChar := by
      rw [List.getLast?_cons]
      cases s.getLast? <;> rfl
    rw [Nat.add_assoc] at hlater
    rw [List.cons_append, scanFrom, hlast, List.foldl_cons, byteLength]
    -- A keyword that begins with `c` begins before the place.
    split
    · split
      · rw [List.filter_cons_of_neg]
        · exact hlater
        · simp only [decide_eq_true_iff]
          omega
      · exact hlater
    · exact hlater

/-! ### Blanks at the end -/

theorem scanFrom_of_isBlank (h : ∀ c ∈ t, isBlank c = true) : scanFrom o last inWord t = [] := by
  induction t generalizing o last inWord with
  | nil => rfl
  | cons c t ih =>
    rw [List.forall_mem_cons] at h
    rw [scanFrom_cons_of_not_isIdentChar (isIdentChar_of_isBlank h.1), ih h.2]

/-- Blanks at the end of a text have no keywords, and make none of the words before them. -/
theorem scanFrom_append_of_isBlank (h : ∀ c ∈ w, isBlank c = true) (t : Text) :
    scanFrom o last inWord (t ++ w) = scanFrom o last inWord t := by
  cases w with
  | nil => rw [List.append_nil]
  | cons d w =>
    have hd : isBlank d = true := h d List.mem_cons_self
    have hident : ¬ isIdentChar d = true := by simp [isIdentChar_of_isBlank hd]
    have hcolon : d ≠ ':' := by
      rintro rfl
      cases hd
    induction t generalizing o last inWord with
    | nil => exact scanFrom_of_isBlank h
    | cons c t ih =>
      have hsplit := takeWhile_append_cons_of_neg hident (c :: t) w
      rw [List.cons_append] at hsplit
      rw [List.cons_append, scanFrom, scanFrom, hsplit.1, hsplit.2, ofWord?_append_cons hcolon, ih]

/-! ### Keywords as words -/

/-- A keyword is a word of the text. -/
theorem exists_word_of_mem_scanFrom (hh : h ∈ scanFrom o last inWord t) : ∃ s w u last', t = s ++ (w ++ u) ∧
    h.offset = o + byteLength s ∧ ofWord? last' w u = some h.keyword := by
  induction t generalizing o last inWord with
  | nil => cases hh
  | cons c t ih =>
    have hlater : h ∈ scanFrom (o + c.utf8Size) (lastOnLine last c) (isIdentChar c) t → ∃ s w u last',
        c :: t = s ++ (w ++ u) ∧ h.offset = o + byteLength s ∧ ofWord? last' w u = some h.keyword := by
      intro hh
      obtain ⟨s, w, u, last', rfl, hoffset, hword⟩ := ih hh
      exact ⟨c :: s, w, u, last', rfl, by rw [hoffset, byteLength, Nat.add_assoc], hword⟩
    rw [scanFrom] at hh
    split at hh
    · split at hh
      · next k hk =>
        rcases List.mem_cons.mp hh with rfl | hh
        · exact ⟨[], _, _, last, List.takeWhile_append_dropWhile.symm, rfl, hk⟩
        · exact hlater hh
      · exact hlater hh
    · exact hlater hh

theorem eq_end_of_ofWord? {u : Text} (h : ofWord? last w u = some closer) : w = "end" := by
  unfold ofWord? at h
  split at h
  · cases h
  · split at h
    · next hend => exact hend
    · split at h <;> cases h

/-- Where a body is closed, the text has an `end`. -/
theorem exists_end_of_mem_scanFrom (hh : ⟨stop, closer⟩ ∈ scanFrom o last inWord t) :
    ∃ s u, t = s ++ ("end" ++ u) ∧ stop = o + byteLength s := by
  obtain ⟨s, w, u, last', rfl, hoffset, hword⟩ := exists_word_of_mem_scanFrom hh
  rw [eq_end_of_ofWord? hword]
  exact ⟨s, u, rfl, hoffset⟩

/-! ### Bodies opened and closed -/

/-- How many of the keywords are of the kind `k`. -/
def count (k : Keyword) (hits : List Hit) : Nat := hits.countP (·.keyword == k)

/-- With `n` levels open before them, nowhere along the keywords more is closed than is open. -/
def StaysOpen (n : Nat) (hits : List Hit) : Prop := ∀ p, p <+: hits → count closer p ≤ count opener p + n

/-- The keywords open and close whole bodies. -/
structure IsMatched (hits : List Hit) : Prop where
  opened : ∀ p, p <+: hits → count closer p ≤ count opener p
  closed : count opener hits = count closer hits

theorem count_cons_opener (o : Nat) (hits : List Hit) :
    count opener (⟨o, opener⟩ :: hits) = count opener hits + 1 ∧
      count closer (⟨o, opener⟩ :: hits) = count closer hits :=
  ⟨List.countP_cons_of_pos rfl, List.countP_cons_of_neg Bool.false_ne_true⟩

theorem count_cons_closer (o : Nat) (hits : List Hit) :
    count opener (⟨o, closer⟩ :: hits) = count opener hits ∧
      count closer (⟨o, closer⟩ :: hits) = count closer hits + 1 :=
  ⟨List.countP_cons_of_neg Bool.false_ne_true, List.countP_cons_of_pos rfl⟩

theorem staysOpen_nil : StaysOpen n [] := by
  intro p hp
  rw [List.prefix_nil.mp hp]
  exact Nat.zero_le _

theorem staysOpen_cons_iff {k : Hit} : StaysOpen n (k :: hits) ↔
    ∀ p, p <+: hits → count closer (k :: p) ≤ count opener (k :: p) + n := by
  constructor
  · exact fun h p hp => h (k :: p) ((List.prefix_cons_inj k).mpr hp)
  · intro h p hp
    rcases List.prefix_cons_iff.mp hp with rfl | ⟨q, rfl, hq⟩
    · exact Nat.zero_le _
    · exact h q hq

theorem staysOpen_cons_opener : StaysOpen n (⟨o, opener⟩ :: hits) ↔ StaysOpen (n + 1) hits := by
  rw [staysOpen_cons_iff, StaysOpen]
  refine forall₂_congr fun p _ => ?_
  obtain ⟨hopener, hcloser⟩ := count_cons_opener o p
  omega

theorem staysOpen_cons_closer : StaysOpen (n + 1) (⟨o, closer⟩ :: hits) ↔ StaysOpen n hits := by
  rw [staysOpen_cons_iff, StaysOpen]
  refine forall₂_congr fun p _ => ?_
  obtain ⟨hopener, hcloser⟩ := count_cons_closer o p
  omega

theorem not_staysOpen_cons_closer : ¬ StaysOpen 0 (⟨o, closer⟩ :: hits) := by
  intro h
  exact Nat.not_succ_le_zero 0 (h [⟨o, closer⟩] ((List.prefix_cons_inj _).mpr List.nil_prefix))

/-- A body is never closed exactly if nowhere more is closed than is open. -/
theorem closing?_eq_none_iff : closing? (n + 1) hits = none ↔ StaysOpen n hits := by
  induction hits generalizing n with
  | nil => exact iff_of_true rfl staysOpen_nil
  | cons h hits ih =>
    obtain ⟨o, k⟩ := h
    cases k with
    | opener => exact ih.trans staysOpen_cons_opener.symm
    | closer =>
      cases n with
      | zero => exact iff_of_false (fun hnone => by cases hnone) not_staysOpen_cons_closer
      | succ n => exact ih.trans staysOpen_cons_closer.symm

/-- A body is closed where all that was open before is closed, for the first time. -/
theorem closing?_eq_some_iff : closing? (n + 1) hits = some stop ↔ ∃ before after,
    hits = before ++ ⟨stop, closer⟩ :: after ∧ StaysOpen n before ∧ count closer before = count opener before + n := by
  induction hits generalizing n with
  | nil =>
    refine iff_of_false (fun h => by cases h) ?_
    rintro ⟨before, after, hsplit, -⟩
    simp at hsplit
  | cons h hits ih =>
    obtain ⟨o, k⟩ := h
    -- The first keyword is the one that is looked for, or is put before those that are met later.
    cases k with
    | opener =>
      refine ih.trans ⟨?_, ?_⟩
      · rintro ⟨before, after, rfl, hopen, hcount⟩
        obtain ⟨hopener, hcloser⟩ := count_cons_opener o before
        exact ⟨⟨o, opener⟩ :: before, after, rfl, staysOpen_cons_opener.mpr hopen, by omega⟩
      · rintro ⟨_ | ⟨k, before⟩, after, hsplit, hopen, hcount⟩
        · cases hsplit
        · obtain ⟨rfl, rfl⟩ := List.cons.inj hsplit
          obtain ⟨hopener, hcloser⟩ := count_cons_opener o before
          exact ⟨before, after, rfl, staysOpen_cons_opener.mp hopen, by omega⟩
    | closer =>
      cases n with
      | zero =>
        refine ⟨fun h => ?_, ?_⟩
        · cases h
          exact ⟨[], hits, rfl, staysOpen_nil, rfl⟩
        · rintro ⟨_ | ⟨k, before⟩, after, hsplit, hopen, hcount⟩
          · cases hsplit
            rfl
          · obtain ⟨rfl, -⟩ := List.cons.inj hsplit
            exact absurd hopen not_staysOpen_cons_closer
      | succ n =>
        refine ih.trans ⟨?_, ?_⟩
        · rintro ⟨before, after, rfl, hopen, hcount⟩
          obtain ⟨hopener, hcloser⟩ := count_cons_closer o before
          exact ⟨⟨o, closer⟩ :: before, after, rfl, staysOpen_cons_closer.mpr hopen, by omega⟩
        · rintro ⟨_ | ⟨k, before⟩, after, hsplit, hopen, hcount⟩
          · cases hsplit
            exact absurd hcount (by simp [count])
          · obtain ⟨rfl, rfl⟩ := List.cons.inj hsplit
            obtain ⟨hopener, hcloser⟩ := count_cons_closer o before
            exact ⟨before, after, rfl, staysOpen_cons_closer.mp hopen, by omega⟩

theorem closing?_append {more : List Hit} (h : closing? (n + 1) hits = some stop) :
    closing? (n + 1) (hits ++ more) = some stop := by
  obtain ⟨before, after, rfl, hopen, hcount⟩ := closing?_eq_some_iff.mp h
  exact closing?_eq_some_iff.mpr ⟨before, after ++ more, by rw [List.append_assoc, List.cons_append], hopen, hcount⟩

theorem mem_of_closing? (h : closing? (n + 1) hits = some stop) : ⟨stop, closer⟩ ∈ hits := by
  obtain ⟨before, after, rfl, -⟩ := closing?_eq_some_iff.mp h
  exact List.mem_append_right _ List.mem_cons_self

theorem sum_depth_eq (hits : List Hit) :
    (hits.map (·.keyword.depth)).sum = (count opener hits : Int) - count closer hits := by
  induction hits with
  | nil => rfl
  | cons h hits ih =>
    obtain ⟨o, k⟩ := h
    rw [List.map_cons, List.sum_cons, ih]
    cases k with
    | opener =>
      obtain ⟨hopener, hcloser⟩ := count_cons_opener o hits
      rw [depth]
      omega
    | closer =>
      obtain ⟨hopener, hcloser⟩ := count_cons_closer o hits
      rw [depth]
      omega

/-- A text that takes levels away closes a body that is open before it. -/
theorem exists_closing?_of_changeBehind_neg (h : changeBehind last t < 0) (o : Nat) :
    ∃ stop, closing? 1 (scanFrom o last false t) = some stop := by
  rw [← Option.ne_none_iff_exists']
  intro hnone
  have hle := closing?_eq_none_iff.mp hnone _ (List.prefix_refl _)
  rw [← sum_depth_scanFrom (o := o), sum_depth_eq] at h
  omega

/-- A new line changes the nesting like a new text. -/
theorem changeBehind_append_newline (s t : Text) :
    changeBehind last (s ++ '\n' :: t) = changeBehind last s + depthChange t := by
  rw [changeBehind, scanFrom_append_newline, List.map_append, List.sum_append, sum_depth_scanFrom,
    sum_depth_scanFrom, depthChange_eq]

/-! ### The place of the `end` -/

theorem matchingClose?_append (s t : Text) : matchingClose? (s ++ t) (byteLength s) =
    closing? 1 (scanFrom (byteLength s) (s.foldl lastOnLine none) (s.getLast?.elim false isIdentChar) t) := by
  have hfilter := @filter_scanFrom_append 0 none false s t
  rw [Nat.zero_add] at hfilter
  rw [matchingClose?, scan, hfilter]

theorem matchingClose?_eq_none_iff : matchingClose? t start = none ↔
    ∀ p, p <+: hitsFrom t start → count closer p ≤ count opener p := closing?_eq_none_iff

theorem matchingClose?_eq_some_iff : matchingClose? t start = some stop ↔
    ⟨stop, closer⟩ ∈ scan t ∧ start ≤ stop ∧ IsMatched (hitsWithin t start stop) := by
  have hsorted : (hitsFrom t start).Pairwise (·.offset < ·.offset) := (pairwise_offset_scanFrom t).filter _
  have hwithin : ∀ before after, hitsFrom t start = before ++ ⟨stop, closer⟩ :: after →
      hitsWithin t start stop = before := by
    intro before after hsplit
    rw [hsplit] at hsorted
    rw [hitsWithin_eq, hsplit]
    exact filter_offset_lt hsorted
  refine closing?_eq_some_iff.trans ⟨?_, ?_⟩
  · rintro ⟨before, after, hsplit, hopen, hcount⟩
    have hmem : ⟨stop, closer⟩ ∈ hitsFrom t start := by
      rw [show hitsFrom t start = _ from hsplit]
      exact List.mem_append_right _ List.mem_cons_self
    obtain ⟨hscan, hle⟩ := List.mem_filter.mp hmem
    rw [hwithin before after hsplit]
    exact ⟨hscan, of_decide_eq_true hle, hopen, hcount.symm⟩
  · rintro ⟨hscan, hle, hmatched⟩
    have hmem : ⟨stop, closer⟩ ∈ hitsFrom t start := List.mem_filter.mpr ⟨hscan, decide_eq_true hle⟩
    obtain ⟨before, after, hsplit⟩ := List.append_of_mem hmem
    rw [hwithin before after hsplit] at hmatched
    exact ⟨before, after, hsplit, hmatched.opened, hmatched.closed.symm⟩

end EndpointAtlas.Keyword
