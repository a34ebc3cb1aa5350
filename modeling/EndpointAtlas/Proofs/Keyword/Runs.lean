import EndpointAtlas.Proofs.Keyword.Bytewise
import Mathlib.Data.List.Induction

/-! Where keywords stand. The scan comes to each maximal run of word bytes, and what it has kept of the line by then is
    the last byte before the run that is no blank. So its keywords are told by the bytes on both sides of a run, and a
    run begins and ends between characters. -/

namespace EndpointAtlas.Keyword
open Text

variable {o : Nat} {last : Option UInt8} {b : UInt8} {t : Text} {bytes before run after front : Bytes} {r : Token}

/-! ### What the scan lists -/

/-- A run of word bytes that can be made longer at neither end. -/
structure IsMaximalRun (before run after : Bytes) : Prop where
  ne_nil : run ≠ []
  isWordByte : ∀ b ∈ run, isWordByte b = true
  starts : ∀ b ∈ before.getLast?, Keyword.isWordByte b = false
  ends : ∀ b ∈ after.head?, Keyword.isWordByte b = false

/-- The last byte that is no blank among those before a place on its line, or none where only blanks stand there. -/
def LastIs (before : Bytes) : Option UInt8 → Prop
  | none => ∃ s gap, before = s ++ gap ∧ (s = [] ∨ s.getLast? = some 0x0A) ∧ ∀ d ∈ gap, isGapByte d = true
  | some b => ∃ s gap, before = s ++ b :: gap ∧ (isGapByte b = false ∧ b ≠ 0x0A) ∧ ∀ d ∈ gap, isGapByte d = true

/-- What a run means between the bytes before it and those behind it. -/
inductive Means (before after : Bytes) : Bytes → Keyword → Prop where
  | block : Means before after (encode "do") opener
  | close : Means before after (encode "end") closer
  | first {w : Text} (hword : w ∈ statementWords) (hlast : LastIs before none) : Means before after (encode w) opener
  | value {w : Text} {sign : UInt8} (hword : w ∈ statementWords) (hlast : LastIs before (some sign))
      (hsign : sign ∈ [0x3D, 0x28, 0x2C]) (hkey : ¬ (after[0]? = some 0x3A ∧ after[1]? ≠ some 0x3A)) :
      Means before after (encode w) opener

/-- At the offset of `h` begins a maximal run of word bytes that means its keyword. -/
def KeywordAt (bytes : Bytes) (h : Hit) : Prop := ∃ before run after, bytes = before ++ (run ++ after) ∧
  h.offset = before.length ∧ IsMaximalRun before run after ∧ Means before after run h.keyword

/-! ### The last byte of a line -/

theorem ne_feed_of_isGapByte (h : isGapByte b = true) : b ≠ 0x0A := by
  rintro rfl
  cases h

theorem LastIs.pass (h : LastIs before last) (b : UInt8) : LastIs (before ++ [b]) (passByte last b) := by
  rw [passByte]
  by_cases hfeed : b = 0x0A
  · rw [if_pos hfeed, hfeed]
    exact ⟨before ++ [0x0A], [], (List.append_nil _).symm, Or.inr List.getLast?_concat, List.forall_mem_nil _⟩
  · rw [if_neg hfeed]
    by_cases hgap : isGapByte b = true
    · -- A blank goes to the blanks behind the last byte, if there is one.
      have hmore : ∀ gap : Bytes, (∀ d ∈ gap, isGapByte d = true) → ∀ d ∈ gap ++ [b], isGapByte d = true :=
        fun gap hall => List.forall_mem_append.mpr ⟨hall, List.forall_mem_singleton.mpr hgap⟩
      rw [if_pos hgap]
      cases last with
      | none =>
        obtain ⟨s, gap, rfl, hs, hall⟩ := h
        exact ⟨s, gap ++ [b], List.append_assoc _ _ _, hs, hmore gap hall⟩
      | some d =>
        obtain ⟨s, gap, rfl, hd, hall⟩ := h
        exact ⟨s, gap ++ [b], List.append_assoc _ _ _, hd, hmore gap hall⟩
    · rw [if_neg hgap]
      exact ⟨before, [], rfl, ⟨Bool.eq_false_iff.mpr hgap, hfeed⟩, List.forall_mem_nil _⟩

theorem foldl_passByte_of_gap (h : ∀ b ∈ bytes, isGapByte b = true) : bytes.foldl passByte last = last := by
  induction bytes with
  | nil => rfl
  | cons b bytes ih =>
    rw [List.forall_mem_cons] at h
    rw [List.foldl_cons, passByte, if_neg (ne_feed_of_isGapByte h.1), if_pos h.1, ih h.2]

/-- What is kept along the bytes is the last byte of the line. -/
theorem lastIs_iff : LastIs before last ↔ before.foldl passByte none = last := by
  constructor
  · intro h
    cases last with
    | none =>
      obtain ⟨s, gap, rfl, hs, hall⟩ := h
      rw [List.foldl_append, foldl_passByte_of_gap hall]
      rcases hs with rfl | hs
      · rfl
      · obtain ⟨s, rfl⟩ := List.getLast?_eq_some_iff.mp hs
        rw [List.foldl_append]
        rfl
    | some b =>
      obtain ⟨s, gap, rfl, ⟨hb, hfeed⟩, hall⟩ := h
      rw [List.foldl_append, List.foldl_cons, foldl_passByte_of_gap hall, passByte, if_neg hfeed, hb]
      rfl
  · rintro rfl
    induction before using List.reverseRecOn with
    | nil => exact ⟨[], [], rfl, Or.inl rfl, List.forall_mem_nil _⟩
    | append_singleton before b ih =>
      rw [List.foldl_append]
      exact ih.pass b

/-! ### What a run means -/

theorem Token.beginsStatement_iff (h : LastIs before r.last) : r.beginsStatement = true ↔
    LastIs before none ∨ ∃ sign ∈ [0x3D, 0x28, 0x2C], LastIs before (some sign) ∧
      ¬ (r.after[0]? = some 0x3A ∧ r.after[1]? ≠ some 0x3A) := by
  obtain ⟨o, last, run, after⟩ := r
  have hunique : ∀ other, LastIs before other → other = last := fun other hother =>
    (lastIs_iff.mp hother).symm.trans (lastIs_iff.mp h)
  have hkey : (!isKeyColon after) = true ↔ ¬ (after[0]? = some 0x3A ∧ after[1]? ≠ some 0x3A) := by
    simp [isKeyColon, imp_iff_not_or]
  cases last with
  | none => exact iff_of_true rfl (Or.inl h)
  | some b =>
    have hsign : (b == 0x3D || b == 0x28 || b == 0x2C) = true ↔ b ∈ [0x3D, 0x28, 0x2C] := by
      simp [or_assoc]
    rw [Token.beginsStatement, Bool.and_eq_true, hkey, hsign]
    constructor
    · exact fun hvalue => Or.inr ⟨b, hvalue.1, h, hvalue.2⟩
    · rintro (hnone | ⟨sign, hmem, hlast, hafter⟩)
      · cases hunique none hnone
      · cases hunique _ hlast
        exact ⟨hmem, hafter⟩

theorem Token.keyword?_eq_some_iff {k : Keyword} (h : LastIs before r.last) :
    r.keyword? = some k ↔ Means before r.after r.bytes k := by
  have hbegins := Token.beginsStatement_iff h
  obtain ⟨o, last, run, after⟩ := r
  constructor
  · intro hk
    rw [Token.keyword?] at hk
    split at hk
    · next hdo =>
      cases hk
      rw [hdo]
      exact Means.block
    · split at hk
      · next hend =>
        cases hk
        rw [hend]
        exact Means.close
      · split at hk
        · next hstatement =>
          cases hk
          rw [Bool.and_eq_true, hbegins, List.contains_iff_mem] at hstatement
          obtain ⟨hplace, hmem⟩ := hstatement
          obtain ⟨w, hw, rfl⟩ := List.mem_map.mp hmem
          rcases hplace with hnone | ⟨sign, hsign, hlast, hkey⟩
          · exact Means.first hw hnone
          · exact Means.value hw hlast hsign hkey
        · cases hk
  · intro hmeans
    have hends : ("end" : Text) ≠ "do" := by decide
    -- A statement word is neither `do` nor `end`, so that only the third case is left for it.
    have hstatement : ∀ w ∈ statementWords, (Token.mk o last (encode w) after).beginsStatement = true →
        (Token.mk o last (encode w) after).keyword? = some opener := by
      intro w hw hplace
      obtain ⟨hdo, hend⟩ := ne_of_mem_statementWords hw
      have hmem : (statementWords.map encode).contains (encode w) = true :=
        List.contains_iff_mem.mpr (List.mem_map_of_mem hw)
      rw [Token.keyword?, if_neg (encode_injective.ne hdo), if_neg (encode_injective.ne hend), hplace, hmem]
      rfl
    cases hmeans with
    | block => exact if_pos rfl
    | close => exact (if_neg (encode_injective.ne hends)).trans (if_pos rfl)
    | first hword hlast => exact hstatement _ hword (hbegins.mpr (Or.inl hlast))
    | value hword hlast hsign hkey => exact hstatement _ hword (hbegins.mpr (Or.inr ⟨_, hsign, hlast, hkey⟩))

/-! ### Maximal runs -/

theorem classes_of_isWordByte (h : isWordByte b = true) : isGapByte b = false ∧ b ≠ 0x0A := by
  constructor
  · rw [Bool.eq_false_iff]
    intro hgap
    simp only [isGapByte, Bool.or_eq_true, beq_iff_eq] at hgap
    rcases hgap with ((rfl | rfl) | rfl) | rfl <;> cases h
  · rintro rfl
    cases h

theorem foldl_passByte_of_run (hne : run ≠ []) (hrun : ∀ b ∈ run, isWordByte b = true) :
    run.foldl passByte last = run.getLast? := by
  rw [foldl_passByte_of_forall fun b hb => classes_of_isWordByte (hrun b hb), List.getLast?_eq_some_getLast hne]
  rfl

theorem first_run_unique {run' after' : Bytes} (h : run ++ after = run' ++ after')
    (hrun : ∀ b ∈ run, isWordByte b = true) (hafter : ∀ b ∈ after.head?, isWordByte b = false)
    (hrun' : ∀ b ∈ run', isWordByte b = true) (hafter' : ∀ b ∈ after'.head?, isWordByte b = false) :
    run = run' ∧ after = after' := by
  obtain ⟨htake, hdrop⟩ := takeWhile_append_of_ends hrun hafter
  obtain ⟨htake', hdrop'⟩ := takeWhile_append_of_ends hrun' hafter'
  rw [h] at htake hdrop
  exact ⟨htake.symm.trans htake', hdrop.symm.trans hdrop'⟩

/-- Bytes that do not end within a run have the whole run in front. -/
theorem exists_append_of_run {rest : Bytes} (h : run ++ after = before ++ rest) (hrun : ∀ b ∈ run, isWordByte b = true)
    (hne : before ≠ []) (hlast : ∀ b ∈ before.getLast?, isWordByte b = false) :
    ∃ s, before = run ++ s ∧ after = s ++ rest := by
  rcases List.append_eq_append_iff.mp h with hlong | ⟨s, hshort, -⟩
  · exact hlong
  · have hword := hrun _ (hshort ▸ List.mem_append_left s (List.getLast_mem hne))
    rw [hlast _ (List.getLast?_eq_some_getLast hne)] at hword
    cases hword

theorem IsMaximalRun.append (h : IsMaximalRun before run after)
    (hfront : before = [] → ∀ b ∈ front.getLast?, Keyword.isWordByte b = false) :
    IsMaximalRun (front ++ before) run after where
  ne_nil := h.ne_nil
  isWordByte := h.isWordByte
  starts d hd := by
    rw [List.getLast?_append] at hd
    cases hlast : before.getLast? with
    | none =>
      rw [hlast, Option.none_or] at hd
      exact hfront (List.getLast?_eq_none_iff.mp hlast) d hd
    | some e =>
      rw [hlast] at hd
      exact h.starts d (hlast.trans hd)
  ends := h.ends

theorem IsMaximalRun.of_append (h : IsMaximalRun (front ++ before) run after) :
    IsMaximalRun before run after where
  ne_nil := h.ne_nil
  isWordByte := h.isWordByte
  starts d hd := h.starts d (by
    rw [List.getLast?_append, Option.mem_def.mp hd]
    rfl)
  ends := h.ends

theorem IsMaximalRun.isWordByte_head (h : IsMaximalRun before run after) :
    ∀ b ∈ (run ++ after).head?, Keyword.isWordByte b = true := by
  intro b hb
  rw [List.head?_append_of_ne_nil _ h.ne_nil] at hb
  exact h.isWordByte b (List.mem_of_mem_head? hb)

/-- The run stands behind `before` and is maximal there, and `before` has been counted and passed. -/
structure Token.StandsBehind (r : Token) (o : Nat) (last : Option UInt8) (before bytes : Bytes) : Prop where
  split : bytes = before ++ (r.bytes ++ r.after)
  offset : r.offset = o + before.length
  last : r.last = before.foldl passByte last
  isMaximalRun : IsMaximalRun before r.bytes r.after

theorem Token.standsBehind_append_iff (hfront : before = [] → ∀ b ∈ front.getLast?, isWordByte b = false) :
    r.StandsBehind o last (front ++ before) (front ++ bytes) ↔
      r.StandsBehind (o + front.length) (front.foldl passByte last) before bytes := by
  constructor
  · rintro ⟨hsplit, hoffset, hlast, hmax⟩
    refine ⟨?_, ?_, ?_, hmax.of_append⟩
    · rw [List.append_assoc] at hsplit
      exact List.append_cancel_left hsplit
    · rw [hoffset, List.length_append, Nat.add_assoc]
    · rw [hlast, List.foldl_append]
  · rintro ⟨rfl, hoffset, hlast, hmax⟩
    refine ⟨(List.append_assoc _ _ _).symm, ?_, ?_, hmax.append hfront⟩
    · rw [hoffset, List.length_append, Nat.add_assoc]
    · rw [hlast, List.foldl_append]

theorem Token.StandsBehind.isWordByte_head (h : r.StandsBehind o last [] bytes) :
    ∀ b ∈ bytes.head?, isWordByte b = true := by
  rw [h.split]
  exact h.isMaximalRun.isWordByte_head

/-- The scan comes to each maximal run. -/
theorem mem_tokensFrom_iff : r ∈ tokensFrom o last bytes ↔ ∃ before, r.StandsBehind o last before bytes := by
  fun_induction tokensFrom o last bytes with
  | case1 o last =>
    refine iff_of_false List.not_mem_nil ?_
    rintro ⟨before, hsplit, -, -, hmax⟩
    exact hmax.ne_nil (List.append_eq_nil_iff.mp (List.append_eq_nil_iff.mp hsplit.symm).2).1
  | case2 o last b bytes hb run after ih =>
    have hsplit : b :: bytes = run ++ after := congrArg (b :: ·) List.takeWhile_append_dropWhile.symm
    have hne : run ≠ [] := List.cons_ne_nil _ _
    have hrun : ∀ d ∈ run, isWordByte d = true :=
      List.forall_mem_cons.mpr ⟨hb, fun d hd => List.mem_takeWhile_imp hd⟩
    have hafter : ∀ d ∈ after.head?, isWordByte d = false := fun d hd => eq_false_of_mem_head?_dropWhile hd
    rw [List.mem_cons, ih, ← foldl_passByte_of_run hne hrun, hsplit]
    constructor
    · rintro (rfl | ⟨before, hstands⟩)
      · exact ⟨[], rfl, rfl, rfl, hne, hrun, (fun d hd => nomatch hd), hafter⟩
      · refine ⟨run ++ before, (Token.standsBehind_append_iff ?_).mpr hstands⟩
        -- Another run cannot stand at once behind this one.
        rintro rfl
        obtain ⟨d, u, hbytes⟩ := List.exists_cons_of_ne_nil hstands.isMaximalRun.ne_nil
        have hd : after.head? = some d := by
          rw [hstands.split, hbytes]
          rfl
        have hword := hstands.isWordByte_head d hd
        rw [hafter d hd] at hword
        cases hword
    · rintro ⟨before, hstands⟩
      have hmax := hstands.isMaximalRun
      by_cases hnil : before = []
      · subst hnil
        have hsame : run ++ after = r.bytes ++ r.after := hstands.split
        obtain ⟨hown, hrest⟩ := first_run_unique hsame hrun hafter hmax.isWordByte hmax.ends
        exact Or.inl (Token.ext hstands.offset hstands.last hown.symm hrest.symm)
      · obtain ⟨s, rfl, -⟩ := exists_append_of_run hstands.split hrun hnil hmax.starts
        refine Or.inr ⟨s, (Token.standsBehind_append_iff ?_).mp hstands⟩
        rintro rfl
        rw [List.append_nil] at hmax
        exact hmax.starts
  | case3 o last b bytes hb ih =>
    have hfront : ∀ d ∈ [b].getLast?, isWordByte d = false := by
      intro d hd
      cases hd
      exact Bool.eq_false_iff.mpr hb
    rw [ih]
    constructor
    · rintro ⟨before, hstands⟩
      exact ⟨[b] ++ before, (Token.standsBehind_append_iff fun _ => hfront).mpr hstands⟩
    · rintro ⟨before, hstands⟩
      cases before with
      | nil => exact absurd (hstands.isWordByte_head b rfl) hb
      | cons d before =>
        obtain ⟨rfl, -⟩ := List.cons.inj hstands.split
        exact ⟨before, (Token.standsBehind_append_iff fun _ => hfront).mp hstands⟩

/-! ### Runs of a text -/

/-- A run that the scan comes to is a part of the text. -/
theorem exists_append_of_mem_tokensFrom (h : r ∈ tokensFrom 0 none (encode t)) : ∃ s w u, t = s ++ (w ++ u) ∧
    r.offset = byteLength s ∧ r.bytes = encode w := by
  obtain ⟨before, hsplit, hoffset, -, hmax⟩ := mem_tokensFrom_iff.mp h
  have hlow : ∀ b ∈ r.bytes, b.toNat < 0x80 := by
    intro b hb
    by_contra hhigh
    have hword := hmax.isWordByte b hb
    rw [(classes_of_le (Nat.le_of_not_lt hhigh)).1] at hword
    cases hword
  obtain ⟨s, w, u, rfl, hs, hw, -⟩ := exists_append_of_encode_eq hsplit hmax.ne_nil hlow
  exact ⟨s, w, u, rfl, by rw [hoffset, Nat.zero_add, ← hs, length_encode], hw.symm⟩

theorem mem_scan_iff_keywordAt (t : Text) (h : Hit) : h ∈ scan t ↔ KeywordAt (encode t) h := by
  rw [scan, scanFrom_eq_filterMap_tokensFrom, List.mem_filterMap]
  constructor
  · rintro ⟨r, hr, hhit⟩
    obtain ⟨before, hsplit, hoffset, hlast, hmax⟩ := mem_tokensFrom_iff.mp hr
    obtain ⟨k, hk, rfl⟩ := Option.map_eq_some_iff.mp hhit
    exact ⟨before, r.bytes, r.after, hsplit, hoffset.trans (Nat.zero_add _), hmax,
      (Token.keyword?_eq_some_iff (lastIs_iff.mpr hlast.symm)).mp hk⟩
  · rintro ⟨before, run, after, hsplit, hoffset, hmax, hmeans⟩
    have hkeyword : (Token.mk h.offset (before.foldl passByte none) run after).keyword? = some h.keyword :=
      (Token.keyword?_eq_some_iff (lastIs_iff.mpr rfl)).mpr hmeans
    exact ⟨_, mem_tokensFrom_iff.mpr ⟨before, hsplit, hoffset.trans (Nat.zero_add _).symm, rfl, hmax⟩,
      Option.map_eq_some_iff.mpr ⟨h.keyword, hkeyword, rfl⟩⟩

/-- The keywords of a text are, in the order of their offsets, the maximal runs of word bytes that mean one. Each run
    that the scan of the bytes takes out begins and ends between characters, and so each keyword begins between two. -/
theorem scan_lists_keywords (t : Text) : (scan t).Pairwise (·.offset < ·.offset) ∧
    (∀ h, h ∈ scan t ↔ KeywordAt (encode t) h) ∧
    scan t = (tokensFrom 0 none (encode t)).filterMap Token.hit? ∧
    (∀ r ∈ tokensFrom 0 none (encode t), ∃ s w u, t = s ++ (w ++ u) ∧ r.offset = byteLength s ∧ r.bytes = encode w) ∧
    ∀ h ∈ scan t, ∃ s u, t = s ++ u ∧ h.offset = byteLength s := by
  have hscan : scan t = (tokensFrom 0 none (encode t)).filterMap Token.hit? :=
    scanFrom_eq_filterMap_tokensFrom 0 none t
  refine ⟨pairwise_offset_scanFrom t, mem_scan_iff_keywordAt t, hscan,
    fun r hr => exists_append_of_mem_tokensFrom hr, fun h hh => ?_⟩
  rw [hscan] at hh
  obtain ⟨r, hr, hhit⟩ := List.mem_filterMap.mp hh
  obtain ⟨k, -, rfl⟩ := Option.map_eq_some_iff.mp hhit
  obtain ⟨s, w, u, rfl, hoffset, -⟩ := exists_append_of_mem_tokensFrom hr
  exact ⟨s, w ++ u, rfl, hoffset⟩

-- First on its line a word opens a body even as a key.
example : (scan "é = if a\nif: b if c").map (·.offset) = [5, 10] := by decide

end EndpointAtlas.Keyword
