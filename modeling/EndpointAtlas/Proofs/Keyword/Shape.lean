import EndpointAtlas.Proofs.Keyword.Scan
import EndpointAtlas.Proofs.Text.Words
import Mathlib.Algebra.Ring.Int.Defs
import Mathlib.Data.List.Basic

/-! The shapes of lines by what they do to the nesting of bodies. A text is passed over unless a keyword is one
    of its words. Statements on one line leave the nesting as it is, openings of bodies add a level, and a
    bare `end` takes one away. -/

namespace EndpointAtlas.Keyword
open Text

variable {o : Nat} {last : Option Char} {inWord : Bool} {l s t w : Text} {c : Char}

/-- All keywords. -/
def words : List Text := "do" :: "end" :: statementWords

/-- No keyword is a word of the text. -/
def IsFree (t : Text) : Prop := ∀ w ∈ runs isIdentChar t, w ∉ words

instance : DecidablePred IsFree := fun t =>
  decidable_of_iff ((runs isIdentChar t).all (!words.contains ·) = true) (by simp [IsFree])

/-- Blanks within a line. -/
def IsGap (t : Text) : Prop := ∀ c ∈ t, isAsciiBlank c = true ∧ c ≠ '\n'

instance : DecidablePred IsGap := fun t => List.decidableBAll _ t

/-- The last character of a text that is no blank. -/
def lastUnblank? (t : Text) : Option Char := (t.filter (!isAsciiBlank ·)).getLast?

/-- The words that can qualify the statement before them. -/
def modifiers : List Text := ["if", "unless", "while", "until"]

/-- A statement on one line: there is no keyword in it, or a modifier behind something that calls for no value. -/
inductive IsSimple : Text → Prop where
  | plain {l : Text} (hfree : IsFree l) : IsSimple l
  | modified {subject word condition : Text} (hword : word ∈ modifiers) (hsubject : IsFree subject)
      (hline : '\n' ∉ subject) (hlast : ∃ c ∈ lastUnblank? subject, c ∉ ['=', '(', ','])
      (hcondition : IsFree condition) : IsSimple (subject ++ (' ' :: word ++ ' ' :: condition))

/-- A line that opens a body: a statement begins it or is the value that its first part calls for, or it ends in
    `do` and arguments. -/
inductive Opens : Text → Prop where
  | statement {indent word rest : Text} (hindent : IsGap indent) (hword : word ∈ statementWords)
      (hrest : IsFree rest) (hhead : ∀ c ∈ rest.head?, isIdentChar c = false ∧ c ≠ ':') :
      Opens (indent ++ (word ++ rest))
  | value {before gap word rest : Text} {sign : Char} (hbefore : IsFree before) (hsign : sign ∈ ['=', '(', ','])
      (hgap : IsGap gap) (hword : word ∈ statementWords) (hrest : IsFree rest)
      (hhead : ∀ c ∈ rest.head?, isIdentChar c = false ∧ c ≠ ':') :
      Opens (before ++ sign :: (gap ++ (word ++ rest)))
  | block {before arguments : Text} (hbefore : IsFree before) (harguments : IsFree arguments)
      (hhead : ∀ c ∈ arguments.head?, isIdentChar c = false) : Opens (before ++ (" do" ++ arguments))

/-! ### Words one after the other -/

theorem induction_on_words {motive : Text → Prop} (nil : motive [])
    (cons : ∀ c t, isIdentChar c = false → motive t → motive (c :: t))
    (word : ∀ w t, w ≠ [] → (∀ c ∈ w, isIdentChar c = true) → (∀ c ∈ t.head?, isIdentChar c = false) → motive t →
      motive (w ++ t)) (t : Text) : motive t := by
  induction h : t.length using Nat.strong_induction_on generalizing t with
  | _ n ih =>
    cases t with
    | nil => exact nil
    | cons c t =>
      by_cases hc : isIdentChar c = true
      · have htake : (c :: t).takeWhile isIdentChar ≠ [] := by
          rw [List.takeWhile_cons_of_pos hc]
          exact List.cons_ne_nil _ _
        have hstop : ∀ d ∈ ((c :: t).dropWhile isIdentChar).head?, isIdentChar d = false := fun d hd =>
          eq_false_of_mem_head?_dropWhile hd
        have hshort : ((c :: t).dropWhile isIdentChar).length < n := by
          rw [List.dropWhile_cons_of_pos hc, ← h, List.length_cons]
          exact Nat.lt_succ_of_le (List.length_dropWhile_le _ _)
        have hword := word _ _ htake (fun d hd => List.mem_takeWhile_imp hd) hstop (ih _ hshort _ rfl)
        rwa [List.takeWhile_append_dropWhile] at hword
      · exact cons c t (Bool.eq_false_iff.mpr hc) (ih t.length (by rw [← h]; exact Nat.lt_succ_self _) t rfl)

theorem isFree_nil : IsFree [] := by decide

theorem isFree_cons_iff (hc : isIdentChar c = false) : IsFree (c :: t) ↔ IsFree t := by
  have hruns : runs isIdentChar (c :: t) = runs isIdentChar t := runs_append_cons hc [] t
  rw [IsFree, hruns, IsFree]

theorem isFree_append_iff (hne : w ≠ []) (hw : ∀ c ∈ w, isIdentChar c = true)
    (ht : ∀ c ∈ t.head?, isIdentChar c = false) : IsFree (w ++ t) ↔ w ∉ words ∧ IsFree t := by
  rw [IsFree, runs_append hne hw ht, List.forall_mem_cons, IsFree]

theorem isFree_of_forall (h : ∀ c ∈ t, isIdentChar c = false) : IsFree t := by
  induction t with
  | nil => exact isFree_nil
  | cons c t ih =>
    rw [List.forall_mem_cons] at h
    exact (isFree_cons_iff h.1).mpr (ih h.2)

/-! ### What a text changes behind another one -/

/-- By how many levels a text changes the nesting where `last` is the last character before it on its line that
    is no blank. -/
def changeBehind (last : Option Char) (t : Text) : Int :=
  ((scanFrom 0 last false t).map (·.keyword.depth)).sum

theorem depthChange_eq (t : Text) : depthChange t = changeBehind none t := rfl

theorem map_keyword_scanFrom (o' : Nat) (t : Text) : (scanFrom o last inWord t).map (·.keyword) =
    (scanFrom o' last inWord t).map (·.keyword) := by
  induction t generalizing o o' last inWord with
  | nil => rfl
  | cons c t ih =>
    rw [scanFrom, scanFrom]
    split
    · split
      · exact congrArg (_ :: ·) (ih _)
      · exact ih _
    · exact ih _

/-- Where a text stands moves its keywords and leaves the levels. -/
theorem sum_depth_scanFrom (t : Text) :
    ((scanFrom o last false t).map (·.keyword.depth)).sum = changeBehind last t := by
  have hmap : ∀ hits : List Hit, hits.map (·.keyword.depth) = (hits.map (·.keyword)).map depth := fun hits => by
    rw [List.map_map]
    rfl
  rw [changeBehind, hmap, hmap, map_keyword_scanFrom 0]

theorem changeBehind_cons (hc : isIdentChar c = false) (t : Text) :
    changeBehind last (c :: t) = changeBehind (lastOnLine last c) t := by
  rw [changeBehind, scanFrom_cons_of_not_isIdentChar hc, sum_depth_scanFrom]

theorem changeBehind_word (hne : w ≠ []) (hw : ∀ c ∈ w, isIdentChar c = true)
    (ht : ∀ c ∈ t.head?, isIdentChar c = false) : changeBehind last (w ++ t) =
      (ofWord? last w t).elim 0 depth + changeBehind w.getLast? t := by
  rw [changeBehind, scanFrom_word hne hw ht, ← sum_depth_scanFrom t]
  cases ofWord? last w t with
  | none => exact (Int.zero_add _).symm
  | some k => rfl

theorem ofWord?_of_not_mem_words (h : w ∉ words) : ofWord? last w t = none := by
  simp only [words, List.mem_cons, not_or] at h
  obtain ⟨hdo, hend, hstatement⟩ := h
  have hno : statementWords.contains w = false := by
    rw [Bool.eq_false_iff]
    exact fun hmem => hstatement (List.contains_iff_mem.mp hmem)
  rw [ofWord?, if_neg hdo, if_neg hend, hno, Bool.and_false]
  rfl

theorem foldl_lastOnLine_of_isIdentChar (hne : w ≠ []) (hw : ∀ c ∈ w, isIdentChar c = true) :
    w.foldl lastOnLine last = w.getLast? := by
  obtain ⟨u, c, rfl⟩ := (List.eq_nil_or_concat' w).resolve_left hne
  rw [List.foldl_append, List.getLast?_concat]
  exact lastOnLine_of_isIdentChar (hw c (List.mem_append_right _ (List.mem_singleton_self c)))

/-- A text without keywords is passed over, unless it ends within a word. -/
theorem changeBehind_append (hs : IsFree s)
    (hsep : (∃ c ∈ s.getLast?, isIdentChar c = true) → ∀ c ∈ t.head?, isIdentChar c = false) :
    changeBehind last (s ++ t) = changeBehind (s.foldl lastOnLine last) t := by
  induction s using induction_on_words generalizing last with
  | nil => rfl
  | cons c s hc ih =>
    have hsep' : (∃ d ∈ s.getLast?, isIdentChar d = true) → ∀ d ∈ t.head?, isIdentChar d = false := by
      rintro ⟨d, hd, hident⟩
      refine hsep ⟨d, ?_, hident⟩
      rw [List.getLast?_cons, Option.mem_def.mp hd]
      rfl
    rw [List.cons_append, changeBehind_cons hc, ih ((isFree_cons_iff hc).mp hs) hsep', List.foldl_cons]
  | word w s hne hw hstop ih =>
    obtain ⟨hword, hs⟩ := (isFree_append_iff hne hw hstop).mp hs
    have hsep' : (∃ d ∈ s.getLast?, isIdentChar d = true) → ∀ d ∈ t.head?, isIdentChar d = false := by
      rintro ⟨d, hd, hident⟩
      refine hsep ⟨d, ?_, hident⟩
      rw [List.getLast?_append, Option.mem_def.mp hd]
      rfl
    have hstop' : ∀ d ∈ (s ++ t).head?, isIdentChar d = false := by
      cases s with
      | nil =>
        refine hsep ⟨w.getLast hne, ?_, hw _ (List.getLast_mem hne)⟩
        rw [List.append_nil, List.getLast?_eq_some_getLast hne]
        rfl
      | cons d s => exact hstop
    rw [List.append_assoc, changeBehind_word hne hw hstop', ofWord?_of_not_mem_words hword, ih hs hsep',
      List.foldl_append, foldl_lastOnLine_of_isIdentChar hne hw]
    exact Int.zero_add _

theorem changeBehind_of_isFree (h : IsFree t) : changeBehind last t = 0 := by
  have happend : changeBehind last (t ++ []) = 0 := by
    rw [changeBehind_append h fun _ c hc => by cases hc]
    rfl
  rwa [List.append_nil] at happend

theorem not_isIdentChar_of_isAsciiBlank (hc : isAsciiBlank c = true) : isIdentChar c = false := by
  simp only [isAsciiBlank, Bool.or_eq_true, beq_iff_eq] at hc
  rcases hc with (((rfl | rfl) | rfl) | rfl) | rfl <;> rfl

theorem changeBehind_gap (hs : IsGap s) (t : Text) : changeBehind last (s ++ t) = changeBehind last t := by
  induction s with
  | nil => rfl
  | cons c s ih =>
    rw [IsGap, List.forall_mem_cons] at hs
    obtain ⟨⟨hblank, hbreak⟩, hs⟩ := hs
    rw [List.cons_append, changeBehind_cons (not_isIdentChar_of_isAsciiBlank hblank), lastOnLine, if_neg hbreak,
      if_pos hblank, ih hs]

theorem depthChange_gap (hs : IsGap s) (t : Text) : depthChange (s ++ t) = depthChange t := changeBehind_gap hs t

theorem foldl_lastOnLine (h : '\n' ∉ t) : t.foldl lastOnLine last = (lastUnblank? t).or last := by
  induction t generalizing last with
  | nil => rfl
  | cons c t ih =>
    rw [List.mem_cons, not_or] at h
    rw [List.foldl_cons, ih h.2, lastOnLine, if_neg (Ne.symm h.1), lastUnblank?, lastUnblank?]
    by_cases hc : isAsciiBlank c = true
    · rw [if_pos hc, List.filter_cons_of_neg (by simp [hc])]
    · rw [if_neg hc, List.filter_cons_of_pos (by simp [hc]), List.getLast?_cons]
      cases (t.filter (!isAsciiBlank ·)).getLast? <;> rfl

/-! ### The shapes of lines -/

theorem chars_of_mem_words (h : w ∈ words) : w ≠ [] ∧ ∀ c ∈ w, isIdentChar c = true := by
  have hall : ∀ w ∈ words, w ≠ [] ∧ List.all w isIdentChar = true := by decide
  exact ⟨(hall w h).1, List.all_eq_true.mp (hall w h).2⟩

theorem mem_words_of_mem_statementWords (h : w ∈ statementWords) : w ∈ words :=
  List.mem_cons_of_mem _ (List.mem_cons_of_mem _ h)

theorem ne_of_mem_statementWords (h : w ∈ statementWords) : w ≠ "do" ∧ w ≠ "end" := by
  have hall : ∀ w ∈ statementWords, w ≠ "do" ∧ w ≠ "end" := by decide
  exact hall w h

theorem ofWord?_of_mem_statementWords (h : w ∈ statementWords) (hbegins : beginsStatement last t = true) :
    ofWord? last w t = some opener := by
  obtain ⟨hdo, hend⟩ := ne_of_mem_statementWords h
  rw [ofWord?, if_neg hdo, if_neg hend, hbegins, List.contains_iff_mem.mpr h]
  rfl

theorem changeBehind_statementWord (h : w ∈ statementWords) (hbegins : beginsStatement last t = true)
    (ht : ∀ c ∈ t.head?, isIdentChar c = false) (hfree : IsFree t) : changeBehind last (w ++ t) = 1 := by
  obtain ⟨hne, hw⟩ := chars_of_mem_words (mem_words_of_mem_statementWords h)
  rw [changeBehind_word hne hw ht, ofWord?_of_mem_statementWords h hbegins, changeBehind_of_isFree hfree]
  rfl

theorem depthChange_of_isSimple (h : IsSimple l) : depthChange l = 0 := by
  cases h with
  | plain hfree => exact changeBehind_of_isFree hfree
  | @modified subject word condition hword hsubject hline hlast hcondition =>
    obtain ⟨c, hc, hsign⟩ := hlast
    simp only [List.mem_cons, List.not_mem_nil, or_false, not_or] at hsign
    have hbehind : subject.foldl lastOnLine none = some c := by
      rw [foldl_lastOnLine hline, Option.mem_def.mp hc]
      rfl
    have hstatement : word ∈ statementWords := by
      have hall : ∀ w ∈ modifiers, w ∈ statementWords := by decide
      exact hall word hword
    have hne : word ≠ "do" ∧ word ≠ "end" := by
      have hall : ∀ w ∈ modifiers, w ≠ "do" ∧ w ≠ "end" := by decide
      exact hall word hword
    obtain ⟨hnil, hchars⟩ := chars_of_mem_words (mem_words_of_mem_statementWords hstatement)
    -- Behind `c` no statement begins, so the modifier is no keyword there.
    have hbegins : beginsStatement (some c) (' ' :: condition) = false := by
      simp [beginsStatement, hsign]
    rw [depthChange_eq, changeBehind_append hsubject fun _ d hd => by cases hd; rfl, hbehind, List.cons_append,
      changeBehind_cons rfl]
    show changeBehind (some c) (word ++ ' ' :: condition) = 0
    rw [changeBehind_word hnil hchars fun d hd => by cases hd; rfl,
      ofWord?_of_not_beginsStatement hne.1 hne.2 hbegins, changeBehind_cons rfl, changeBehind_of_isFree hcondition]
    rfl

theorem beginsStatement_of_sign {sign : Char} (hsign : sign ∈ ['=', '(', ','])
    (ht : ∀ c ∈ t.head?, isIdentChar c = false ∧ c ≠ ':') : beginsStatement (some sign) t = true := by
  have hkey : isHashKey t = false := by
    cases t with
    | nil => rfl
    | cons c t => simp [isHashKey, (ht c rfl).2]
  simp only [List.mem_cons, List.not_mem_nil, or_false] at hsign
  rw [beginsStatement, hkey]
  rcases hsign with rfl | rfl | rfl <;> rfl

theorem depthChange_of_opens (h : Opens l) : depthChange l = 1 := by
  cases h with
  | statement hindent hword hrest hhead =>
    rw [depthChange_eq, changeBehind_gap hindent]
    exact changeBehind_statementWord hword rfl (fun c hc => (hhead c hc).1) hrest
  | @value before gap word rest sign hbefore hsign hgap hword hrest hhead =>
    have hident : isIdentChar sign = false ∧ lastOnLine (before.foldl lastOnLine none) sign = some sign := by
      simp only [List.mem_cons, List.not_mem_nil, or_false] at hsign
      rcases hsign with rfl | rfl | rfl <;> exact ⟨rfl, rfl⟩
    rw [depthChange_eq, changeBehind_append hbefore fun _ d hd => by cases hd; exact hident.1,
      changeBehind_cons hident.1, hident.2, changeBehind_gap hgap]
    exact changeBehind_statementWord hword (beginsStatement_of_sign hsign hhead) (fun c hc => (hhead c hc).1) hrest
  | @block before arguments hbefore harguments hhead =>
    obtain ⟨hne, hchars⟩ := @chars_of_mem_words "do" (by decide)
    show changeBehind none (before ++ ' ' :: ("do" ++ arguments)) = 1
    rw [changeBehind_append hbefore fun _ d hd => by cases hd; rfl, changeBehind_cons rfl,
      changeBehind_word hne hchars hhead, changeBehind_of_isFree harguments]
    rfl

theorem depthChange_of_trim_eq_end (h : trim l = "end") : depthChange l = -1 := by
  obtain ⟨s, u, hl, hs, hu⟩ := exists_append_trim l
  have hident : ∀ t : Text, (∀ c ∈ t, isBlank c = true) → ∀ c ∈ t, isIdentChar c = false :=
    fun t ht c hc => isIdentChar_of_isBlank (ht c hc)
  have hlast : ¬ ∃ c ∈ s.getLast?, isIdentChar c = true := by
    rintro ⟨c, hc, hc'⟩
    rw [hident s hs c (List.mem_of_getLast? hc)] at hc'
    cases hc'
  have hhead : ∀ c ∈ u.head?, isIdentChar c = false := fun c hc => hident u hu c (List.mem_of_head? hc)
  obtain ⟨hne, hchars⟩ := @chars_of_mem_words "end" (by decide)
  rw [hl, h, depthChange_eq, changeBehind_append (isFree_of_forall (hident s hs)) fun h => absurd h hlast,
    changeBehind_word hne hchars hhead, changeBehind_of_isFree (isFree_of_forall (hident u hu))]
  rfl

end EndpointAtlas.Keyword
