import EndpointAtlas.Proofs.Keyword.Closing
import EndpointAtlas.Proofs.Text.Bytewise

/-! Keywords byte by byte. A scan of the encoded form that knows nothing of characters comes to the same keywords: all
    bytes that mean anything to it are below 0x80, and no other character has such a byte in its form. -/

namespace EndpointAtlas.Keyword
open Text

variable {o : Nat} {last : Option Char} {lastByte : Option UInt8} {c : Char} {b : UInt8} {t w : Text}
  {bytes before run after : Bytes}

/-! ### The scan of the bytes -/

/-- An ASCII letter, an ASCII digit or an underscore. -/
def isWordByte (b : UInt8) : Bool :=
  let n := b.toNat
  (48 ≤ n && n ≤ 57) || (65 ≤ n && n ≤ 90) || (97 ≤ n && n ≤ 122) || n == 95

/-- A space, a tab, a carriage return or a form feed. -/
def isGapByte (b : UInt8) : Bool := b == 0x20 || b == 0x09 || b == 0x0D || b == 0x0C

/-- The last byte on the line that is no blank, once `b` has been passed. -/
def passByte (last : Option UInt8) (b : UInt8) : Option UInt8 :=
  if b = 0x0A then none else if isGapByte b then last else some b

/-- The bytes begin with a colon that no other colon follows. -/
def isKeyColon (bytes : Bytes) : Bool := bytes[0]? == some 0x3A && bytes[1]? != some 0x3A

/-- A run of word bytes as the scan comes to it: the byte at which it begins, the last byte before it on its line that
    is no blank, its own bytes, and those behind it. -/
@[ext]
structure Token where
  offset : Nat
  last : Option UInt8
  bytes : Bytes
  after : Bytes

/-- The runs of word bytes, one after the other. -/
def tokensFrom (o : Nat) (last : Option UInt8) : Bytes → List Token
  | [] => []
  | b :: bytes =>
    if isWordByte b then
      let run := b :: bytes.takeWhile isWordByte
      let after := bytes.dropWhile isWordByte
      ⟨o, last, run, after⟩ :: tokensFrom (o + run.length) run.getLast? after
    else tokensFrom (o + 1) (passByte last b) bytes
termination_by bytes => bytes.length
decreasing_by
  · exact Nat.lt_succ_of_le (List.length_dropWhile_le _ _)
  · exact Nat.lt_succ_self _

namespace Token

/-- A statement begins at the run: it is first on its line, or an equals sign, an opening parenthesis or a comma stands
    before it and it is no key. -/
def beginsStatement (r : Token) : Bool :=
  match r.last with
  | none => true
  | some b => (b == 0x3D || b == 0x28 || b == 0x2C) && !isKeyColon r.after

/-- What the run is. -/
def keyword? (r : Token) : Option Keyword :=
  if r.bytes = encode "do" then some opener
  else if r.bytes = encode "end" then some closer
  else if r.beginsStatement && (statementWords.map encode).contains r.bytes then some opener
  else none

/-- The keyword, where the run begins. -/
def hit? (r : Token) : Option Hit := r.keyword?.map (⟨r.offset, ·⟩)

end Token

/-! ### Characters and their bytes -/

theorem lt_of_isIdentChar (h : isIdentChar c = true) : c.toNat < 0x80 := by
  have hclasses : (decide (c.val ≥ 'A'.val ∧ c.val ≤ 'Z'.val) || (c.val ≥ 'a'.val && c.val ≤ 'z'.val) ||
      (c.val ≥ '0'.val && c.val ≤ '9'.val) || c == '_') = true := h
  simp only [Bool.or_eq_true, Bool.and_eq_true, decide_eq_true_eq, beq_iff_eq] at hclasses
  rcases hclasses with ((⟨-, h⟩ | ⟨-, h⟩) | ⟨-, h⟩) | rfl
  · exact Nat.lt_of_le_of_lt (UInt32.le_iff_toNat_le.mp h) (by decide)
  · exact Nat.lt_of_le_of_lt (UInt32.le_iff_toNat_le.mp h) (by decide)
  · exact Nat.lt_of_le_of_lt (UInt32.le_iff_toNat_le.mp h) (by decide)
  · decide

theorem lt_of_isAsciiBlank (h : isAsciiBlank c = true) : c.toNat < 0x80 := by
  simp only [isAsciiBlank, Bool.or_eq_true, beq_iff_eq] at h
  rcases h with (((rfl | rfl) | rfl) | rfl) | rfl <;> decide

theorem classes_of_lt : ∀ n < 128, isWordByte (UInt8.ofNat n) = isIdentChar (Char.ofNat n) ∧
    isGapByte (UInt8.ofNat n) = (isAsciiBlank (Char.ofNat n) && Char.ofNat n != '\n') ∧
    (UInt8.ofNat n = 0x0A ↔ Char.ofNat n = '\n') := by decide +kernel

theorem classes_of_le (h : 0x80 ≤ b.toNat) : isWordByte b = false ∧ isGapByte b = false ∧ b ≠ 0x0A := by
  have hne : ∀ d : UInt8, d.toNat < 0x80 → b ≠ d := by
    rintro d hd rfl
    omega
  refine ⟨?_, ?_, hne _ (by decide)⟩
  · simp only [isWordByte, Bool.or_eq_false_iff, Bool.and_eq_false_iff, decide_eq_false_iff_not, beq_eq_false_iff_ne]
    omega
  · simp [isGapByte, hne]

/-- A byte of the form of `c` is the one that stands for `d` exactly if `c` is `d`. -/
theorem beq_of_mem_encodeChar {d : Char} {n : UInt8} (hb : b ∈ String.utf8EncodeChar c) (hd : d.toNat < 0x80)
    (hn : n.toNat = d.toNat) : (b == n) = (c == d) := by
  rw [Bool.eq_iff_iff, beq_iff_eq, beq_iff_eq]
  constructor
  · rintro rfl
    exact eq_of_mem_encodeChar hb hd hn
  · rintro rfl
    rw [encodeChar_of_lt hd, List.mem_singleton] at hb
    rw [hb, ← hn, UInt8.ofNat_toNat]

theorem isWordByte_of_mem_encodeChar (hb : b ∈ String.utf8EncodeChar c) : isWordByte b = isIdentChar c := by
  by_cases hc : c.toNat < 0x80
  · rw [encodeChar_of_lt hc, List.mem_singleton] at hb
    rw [hb, (classes_of_lt _ hc).1, Char.ofNat_toNat]
  · have hident : isIdentChar c = false := Bool.eq_false_iff.mpr fun h => hc (lt_of_isIdentChar h)
    rw [hident]
    exact (classes_of_le (le_of_mem_encodeChar (Nat.le_of_not_lt hc) hb)).1

/-- The last byte of the form of a character. -/
def lastOfForm (c : Char) : Option UInt8 := (String.utf8EncodeChar c).getLast?

theorem exists_lastOfForm (c : Char) : ∃ b ∈ String.utf8EncodeChar c, lastOfForm c = some b :=
  ⟨_, List.getLast_mem String.utf8EncodeChar_ne_nil, List.getLast?_eq_some_getLast _⟩

theorem foldl_passByte_of_forall (h : ∀ b ∈ bytes, isGapByte b = false ∧ b ≠ 0x0A) :
    bytes.foldl passByte lastByte = bytes.getLast?.or lastByte := by
  induction bytes generalizing lastByte with
  | nil => rfl
  | cons b bytes ih =>
    rw [List.forall_mem_cons] at h
    rw [List.foldl_cons, ih h.2, passByte, if_neg h.1.2, h.1.1, List.getLast?_cons]
    cases bytes.getLast? <;> rfl

theorem foldl_passByte_encodeChar (last : Option Char) (c : Char) :
    (String.utf8EncodeChar c).foldl passByte (last.bind lastOfForm) = (lastOnLine last c).bind lastOfForm := by
  by_cases hc : c.toNat < 0x80
  · have hform : lastOfForm c = some (UInt8.ofNat c.toNat) := by
      rw [lastOfForm, encodeChar_of_lt hc]
      rfl
    obtain ⟨-, hgap, hfeed⟩ := classes_of_lt _ hc
    rw [Char.ofNat_toNat] at hgap hfeed
    rw [encodeChar_of_lt hc, List.foldl_cons, List.foldl_nil, passByte, lastOnLine, hgap]
    by_cases hbreak : c = '\n'
    · rw [if_pos (hfeed.mpr hbreak), if_pos hbreak]
      rfl
    · rw [if_neg (hfeed.not.mpr hbreak), if_neg hbreak, bne_iff_ne.mpr hbreak, Bool.and_true]
      split
      · rfl
      · exact hform.symm
  · have hplain : ∀ b ∈ String.utf8EncodeChar c, isGapByte b = false ∧ b ≠ 0x0A := fun b hb =>
      (classes_of_le (le_of_mem_encodeChar (Nat.le_of_not_lt hc) hb)).2
    have hbreak : c ≠ '\n' := by
      rintro rfl
      exact hc (by decide)
    have hblank : ¬ isAsciiBlank c = true := fun h => hc (lt_of_isAsciiBlank h)
    obtain ⟨b, -, hlast⟩ := exists_lastOfForm c
    rw [foldl_passByte_of_forall hplain, lastOnLine, if_neg hbreak, if_neg hblank]
    rw [lastOfForm] at hlast
    simp [lastOfForm, hlast]

/-! ### The two scans -/

theorem tokensFrom_append (h : ∀ b ∈ before, isWordByte b = false) (o : Nat) (lastByte : Option UInt8) (bytes : Bytes) :
    tokensFrom o lastByte (before ++ bytes) =
      tokensFrom (o + before.length) (before.foldl passByte lastByte) bytes := by
  induction before generalizing o lastByte with
  | nil => rfl
  | cons b before ih =>
    rw [List.forall_mem_cons] at h
    rw [List.cons_append, tokensFrom, h.1, if_neg Bool.false_ne_true, ih h.2, List.foldl_cons, List.length_cons,
      Nat.add_assoc o 1, Nat.add_comm 1]

theorem tokensFrom_run (hne : run ≠ []) (hrun : ∀ b ∈ run, isWordByte b = true)
    (hafter : ∀ b ∈ after.head?, isWordByte b = false) (o : Nat) (lastByte : Option UInt8) :
    tokensFrom o lastByte (run ++ after) =
      ⟨o, lastByte, run, after⟩ :: tokensFrom (o + run.length) run.getLast? after := by
  obtain ⟨b, run, rfl⟩ := List.exists_cons_of_ne_nil hne
  rw [List.forall_mem_cons] at hrun
  obtain ⟨htake, hdrop⟩ := takeWhile_append_of_ends hrun.2 hafter
  rw [List.cons_append, tokensFrom, if_pos hrun.1, htake, hdrop]

theorem head?_encode_beq {d : Char} {n : UInt8} (hd : d.toNat < 0x80) (hn : n.toNat = d.toNat) (t : Text) :
    ((encode t)[0]? == some n) = (t.head? == some d) := by
  cases t with
  | nil => rfl
  | cons c t =>
    obtain ⟨b, bytes, hform⟩ := List.exists_cons_of_ne_nil (String.utf8EncodeChar_ne_nil (c := c))
    have hb : b ∈ String.utf8EncodeChar c := hform ▸ List.mem_cons_self
    rw [encode_cons, hform]
    exact beq_of_mem_encodeChar hb hd hn

theorem isKeyColon_encode (t : Text) : isKeyColon (encode t) = isHashKey t := by
  have hcolon := head?_encode_beq (d := ':') (n := 0x3A) (by decide) rfl
  rw [isKeyColon, hcolon]
  cases t with
  | nil => rfl
  | cons c t =>
    by_cases hc : c = ':'
    · subst hc
      have hsecond : (encode (':' :: t))[1]? = (encode t)[0]? := rfl
      rw [hsecond, bne, hcolon]
      cases t with
      | nil => rfl
      | cons d t => by_cases hd : d = ':' <;> simp [isHashKey, hd]
    · simp [isHashKey, hc]

theorem beginsStatement_encode (o : Nat) (last : Option Char) (run : Bytes) (t : Text) :
    (Token.mk o (last.bind lastOfForm) run (encode t)).beginsStatement = beginsStatement last t := by
  cases last with
  | none => rfl
  | some c =>
    obtain ⟨b, hb, hlast⟩ := exists_lastOfForm c
    simp only [Token.beginsStatement, beginsStatement, Option.bind_some, hlast, isKeyColon_encode]
    rw [beq_of_mem_encodeChar (d := '=') hb (by decide) rfl, beq_of_mem_encodeChar (d := '(') hb (by decide) rfl,
      beq_of_mem_encodeChar (d := ',') hb (by decide) rfl]

theorem hit?_encode (o : Nat) (last : Option Char) (w t : Text) :
    (Token.mk o (last.bind lastOfForm) (encode w) (encode t)).hit? = (ofWord? last w t).map (⟨o, ·⟩) := by
  have hwords : (statementWords.map encode).contains (encode w) = statementWords.contains w := by
    rw [Bool.eq_iff_iff, List.contains_iff_mem, List.contains_iff_mem, List.mem_map_of_injective encode_injective]
  rw [Token.hit?, Token.keyword?, beginsStatement_encode, hwords]
  simp only [encode_injective.eq_iff]
  rfl

/-- The scan of the bytes comes to the same keywords. -/
theorem scanFrom_eq_filterMap_tokensFrom (o : Nat) (last : Option Char) (t : Text) :
    scanFrom o last false t = (tokensFrom o (last.bind lastOfForm) (encode t)).filterMap Token.hit? := by
  induction t using induction_on_words generalizing o last with
  | nil =>
    rw [show encode [] = [] from rfl, tokensFrom]
    rfl
  | cons c t hc ih =>
    have hform : ∀ b ∈ String.utf8EncodeChar c, isWordByte b = false := fun b hb =>
      (isWordByte_of_mem_encodeChar hb).trans hc
    rw [scanFrom_cons_of_not_isIdentChar hc, encode_cons, tokensFrom_append hform, String.length_utf8EncodeChar,
      foldl_passByte_encodeChar, ih]
  | word w t hne hw ht ih =>
    have hrun : encode w ≠ [] := fun hnil => hne (encode_injective hnil)
    have hbytes : ∀ b ∈ encode w, isWordByte b = true := by
      intro b hb
      obtain ⟨c, hc, hb⟩ := mem_encode.mp hb
      rw [isWordByte_of_mem_encodeChar hb, hw c hc]
    have hafter : ∀ b ∈ (encode t).head?, isWordByte b = false := by
      intro b hb
      obtain ⟨c, hc, hb⟩ := exists_of_mem_head?_encode hb
      rw [isWordByte_of_mem_encodeChar hb, ht c hc]
    rw [scanFrom_word hne hw ht, encode_append, tokensFrom_run hrun hbytes hafter, length_encode, getLast?_encode, ih,
      List.filterMap_cons, hit?_encode]
    cases ofWord? last w t <;> rfl

end EndpointAtlas.Keyword
