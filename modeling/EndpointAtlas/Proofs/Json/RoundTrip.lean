import EndpointAtlas.Proofs.Json.Reader
import EndpointAtlas.Proofs.Text.Blank
import EndpointAtlas.Proofs.Text.Pieces

/-! The indented text of a JSON value is read as that value, whatever its strings hold. Its numbers have
    to be numbers, which is the one thing that the type does not see to. -/

namespace EndpointAtlas.Json
open Text

/-! ### Values that can be written -/

mutual

/-- Every number in the value is one. -/
def isValid : Json → Bool
  | bool _ => true
  | number digits => isNumber digits
  | string _ => true
  | array items => areValid items
  | object fields => fieldsAreValid fields

/-- Every number in the values of an array is one. -/
def areValid : List Json → Bool
  | [] => true
  | x :: xs => x.isValid && areValid xs

/-- Every number in the fields of an object is one. -/
def fieldsAreValid : List (Text × Json) → Bool
  | [] => true
  | (_, x) :: fs => x.isValid && fieldsAreValid fs

end

/-! ### Strings -/

theorem hexValue?_hexDigit {n : Nat} (h : n < 16) : hexValue? (hexDigit n) = some n := by
  have hall : ∀ m < 16, hexValue? (hexDigit m) = some m := by decide
  exact hall n h

theorem readUnit?_hexDigits {m n : Nat} (hm : m < 16) (hn : n < 16) (t : Text) :
    readUnit? ('0' :: '0' :: hexDigit m :: hexDigit n :: t) = some (16 * m + n, t) := by
  have hdigits : ['0', '0', hexDigit m, hexDigit n].mapM hexValue? = some [0, 0, m, n] := by
    simp only [List.mapM_cons, List.mapM_nil, hexValue?_hexDigit hm, hexValue?_hexDigit hn]
    rfl
  rw [readUnit?, hdigits]
  simp

/-- A character is escaped by one character, by its code or not at all. -/
theorem escape_cases (c : Char) :
    (∃ d, escape c = ['\\', d] ∧ d ≠ 'u' ∧ shortEscapes.lookup d = some c) ∨
    (c.toNat < 0x20 ∧ escape c = ['\\', 'u', '0', '0', hexDigit (c.toNat / 16), hexDigit (c.toNat % 16)]) ∨
    (0x20 ≤ c.toNat ∧ c ≠ '"' ∧ c ≠ '\\' ∧ escape c = [c]) := by
  by_cases hshort : c ∈ ['"', '\\', '\n', '\r', '\t', '\x08', '\x0c']
  · refine Or.inl ?_
    simp only [List.mem_cons, List.not_mem_nil, or_false] at hshort
    rcases hshort with rfl | rfl | rfl | rfl | rfl | rfl | rfl
    all_goals exact ⟨_, rfl, by decide, rfl⟩
  · simp only [List.mem_cons, List.not_mem_nil, or_false, not_or] at hshort
    obtain ⟨h₁, h₂, h₃, h₄, h₅, h₆, h₇⟩ := hshort
    unfold escape
    rw [if_neg h₁, if_neg h₂, if_neg h₃, if_neg h₄, if_neg h₅, if_neg h₆, if_neg h₇]
    by_cases hcontrol : c.toNat < 0x20
    · rw [if_pos hcontrol]
      exact Or.inr (Or.inl ⟨hcontrol, rfl⟩)
    · rw [if_neg hcontrol]
      exact Or.inr (Or.inr ⟨Nat.le_of_not_lt hcontrol, h₁, h₂, rfl⟩)

theorem readChar?_escape (c : Char) (t : Text) : readChar? (escape c ++ t) = some (c, t) := by
  rcases escape_cases c with ⟨d, h, hd, hlook⟩ | ⟨hcontrol, h⟩ | ⟨hcode, -, hslash, h⟩
  · rw [h]
    show readChar? ('\\' :: d :: t) = _
    rw [readChar?.eq_def]
    split
    · next heq => cases heq
    · next heq => exact absurd (List.cons.inj (List.cons.inj heq).2).1 hd
    · next heq =>
      obtain ⟨rfl, rfl⟩ := List.cons.inj (List.cons.inj heq).2
      rw [hlook]
      rfl
    · next hne heq =>
      obtain ⟨rfl, rfl⟩ := List.cons.inj heq
      exact (hne d t rfl rfl).elim
  · have hunit := @readUnit?_hexDigits (c.toNat / 16) (c.toNat % 16) (by omega) (by omega) t
    have hcode : 16 * (c.toNat / 16) + c.toNat % 16 = c.toNat := by omega
    have hbelow : c.toNat < 0xD800 ∨ 0xE000 ≤ c.toNat := by omega
    rw [h]
    show readEscaped? ('0' :: '0' :: hexDigit (c.toNat / 16) :: hexDigit (c.toNat % 16) :: t) = _
    rw [readEscaped?, hunit, hcode]
    simp [hbelow]
  · rw [h, List.singleton_append, readChar?.eq_def]
    split <;> simp_all

theorem head_escape_append_ne (c : Char) (t : Text) : (escape c ++ t).head? ≠ some '"' := by
  rcases escape_cases c with ⟨d, h, -⟩ | ⟨-, h⟩ | ⟨-, hquote, -, h⟩
  · rw [h]
    exact fun heq => by cases heq
  · rw [h]
    exact fun heq => by cases heq
  · rw [h]
    exact fun heq => hquote (Option.some.inj heq)

theorem readString?_of_readChar? {fuel : Nat} {t u : Text} {c : Char} (hquote : t.head? ≠ some '"')
    (h : readChar? t = some (c, u)) :
    readString? (fuel + 1) t = (readString? fuel u).map fun (s, rest) => (c :: s, rest) := by
  have hnot : ∀ v, t = '"' :: v → False := by
    rintro v rfl
    exact hquote rfl
  rw [readString?.eq_3 _ _ hnot, h]
  simp only [Option.bind_eq_bind, Option.bind_some]
  cases readString? fuel u with
  | none => rfl
  | some found => rfl

theorem readString?_escaped {fuel : Nat} {s : Text} (h : s.length < fuel) (t : Text) :
    readString? fuel (s.flatMap escape ++ '"' :: t) = some (s, t) := by
  induction s generalizing fuel with
  | nil =>
    obtain ⟨n, rfl⟩ := Nat.exists_eq_succ_of_ne_zero (Nat.ne_of_gt h)
    rfl
  | cons c s ih =>
    obtain ⟨n, rfl⟩ := Nat.exists_eq_succ_of_ne_zero (Nat.ne_of_gt (Nat.lt_of_le_of_lt (Nat.zero_le _) h))
    rw [List.flatMap_cons, List.append_assoc,
      readString?_of_readChar? (head_escape_append_ne c _) (readChar?_escape c _), ih (Nat.lt_of_succ_lt_succ h)]
    rfl

theorem length_le_length_escaped (s : Text) : s.length ≤ (s.flatMap escape).length := by
  induction s with
  | nil => exact Nat.le_refl _
  | cons c s ih =>
    have hpos : 1 ≤ (escape c).length := by
      rcases escape_cases c with ⟨d, h, -⟩ | ⟨-, h⟩ | ⟨-, -, -, h⟩ <;> simp [h]
    rw [List.flatMap_cons, List.length_append, List.length_cons]
    omega

/-! ### Numbers -/

/-- What may stand behind a value: nothing that a number could go on with. -/
def EndsNumber (t : Text) : Prop := ∀ c ∈ t.head?, isNumberChar c = false

theorem isNumberChar_of_isDigit {c : Char} (h : c.isDigit = true) : isNumberChar c = true := by
  simp [isNumberChar, h]

theorem forall_of_forall_dropWhile {t : Text} (h : ∀ c ∈ t.dropWhile Char.isDigit, isNumberChar c = true) :
    ∀ c ∈ t, isNumberChar c = true := by
  intro c hc
  rw [← List.takeWhile_append_dropWhile (p := Char.isDigit) (l := t)] at hc
  rcases List.mem_append.mp hc with hc | hc
  · exact isNumberChar_of_isDigit (List.mem_takeWhile_imp hc)
  · exact h c hc

theorem forall_of_isExponent {t : Text} (h : isExponent t = true) : ∀ c ∈ t, isNumberChar c = true := by
  cases t with
  | nil => exact fun c hc => nomatch hc
  | cons e t =>
    simp only [isExponent, Bool.and_eq_true, Bool.or_eq_true, beq_iff_eq, List.all_eq_true] at h
    obtain ⟨⟨he, -⟩, hdigits⟩ := h
    have hall : ∀ c ∈ t, isNumberChar c = true := by
      by_cases hsign : t.head? = some '-' ∨ t.head? = some '+'
      · rw [if_pos hsign] at hdigits
        cases t with
        | nil => exact fun c hc => nomatch hc
        | cons sign t =>
          rintro c hc
          rcases List.mem_cons.mp hc with rfl | hc
          · rcases hsign with hsign | hsign <;> cases hsign <;> rfl
          · exact isNumberChar_of_isDigit (hdigits c hc)
      · rw [if_neg hsign] at hdigits
        exact fun c hc => isNumberChar_of_isDigit (hdigits c hc)
    rintro c hc
    rcases List.mem_cons.mp hc with rfl | hc
    · rcases he with rfl | rfl <;> rfl
    · exact hall c hc

theorem forall_of_isFraction {t : Text} (h : isFraction t = true) : ∀ c ∈ t, isNumberChar c = true := by
  unfold isFraction at h
  split at h
  · next d t =>
    simp only [Bool.and_eq_true] at h
    have ht := forall_of_forall_dropWhile (forall_of_isExponent h.2)
    rintro c hc
    simp only [List.mem_cons] at hc
    rcases hc with rfl | rfl | hc
    · rfl
    · exact isNumberChar_of_isDigit h.1
    · exact ht c hc
  · exact forall_of_isExponent h

theorem forall_of_isUnsigned {t : Text} (h : isUnsigned t = true) : t ≠ [] ∧ ∀ c ∈ t, isNumberChar c = true := by
  cases t with
  | nil => cases h
  | cons d t =>
    rw [isUnsigned] at h
    refine ⟨List.cons_ne_nil d t, fun c hc => ?_⟩
    by_cases hd : d = '0'
    · rw [if_pos hd] at h
      rcases List.mem_cons.mp hc with rfl | hc
      · rw [hd]
        rfl
      · exact forall_of_isFraction h c hc
    · rw [if_neg hd, Bool.and_eq_true] at h
      rcases List.mem_cons.mp hc with rfl | hc
      · exact isNumberChar_of_isDigit h.1
      · exact forall_of_forall_dropWhile (forall_of_isFraction h.2) c hc

theorem forall_of_isNumber {t : Text} (h : isNumber t = true) : t ≠ [] ∧ ∀ c ∈ t, isNumberChar c = true := by
  unfold isNumber at h
  by_cases hsign : t.head? = some '-'
  · rw [if_pos hsign] at h
    cases t with
    | nil => cases hsign
    | cons sign t =>
      cases hsign
      refine ⟨List.cons_ne_nil _ t, fun c hc => ?_⟩
      rcases List.mem_cons.mp hc with rfl | hc
      · rfl
      · exact (forall_of_isUnsigned h).2 c hc
  · rw [if_neg hsign] at h
    exact forall_of_isUnsigned h

theorem readNumber?_append {digits t : Text} (h : isNumber digits = true) (ht : EndsNumber t) :
    readNumber? (digits ++ t) = some (number digits, t) := by
  obtain ⟨-, hall⟩ := forall_of_isNumber h
  obtain ⟨htake, hdrop⟩ := takeWhile_append_of_ends hall ht
  rw [readNumber?, htake, hdrop]
  exact if_pos h

theorem readValue?_of_isNumberChar {c : Char} (hc : isNumberChar c = true) (fuel : Nat) (t : Text) :
    readValue? (fuel + 1) (c :: t) = readNumber? (c :: t) := by
  have hne : ∀ d, isNumberChar d = false → c ≠ d := by
    rintro d hd rfl
    rw [hd] at hc
    cases hc
  have hlit : oneOf? [("true", bool true), ("false", bool false)] (c :: t) = none := by
    have htrue : dropLead? "true" (c :: t) = none := if_neg (Ne.symm (hne 't' rfl))
    have hfalse : dropLead? "false" (c :: t) = none := if_neg (Ne.symm (hne 'f' rfl))
    show ((dropLead? "true" (c :: t)).map (bool true, ·) <|>
      ((dropLead? "false" (c :: t)).map (bool false, ·) <|> none)) = none
    rw [htrue, hfalse]
    rfl
  have hhead : ∀ d, isNumberChar d = false → ∀ u, c :: t = d :: u → False := fun d hd u heq =>
    hne d hd (List.cons.inj heq).1
  rw [readValue?.eq_5 _ _ (hhead '"' rfl) (hhead '[' rfl) (hhead '\x7b' rfl), hlit]
  rfl

/-! ### White space -/

theorem skip_cons {c : Char} (h : isSpace c = false) (t : Text) : skip (c :: t) = c :: t :=
  List.dropWhile_cons_of_neg (by simp [h])

theorem skip_newLine_append (level : Nat) (t : Text) : skip (newLine level ++ t) = skip t := by
  refine List.dropWhile_append_of_pos fun c hc => ?_
  rcases List.mem_cons.mp hc with rfl | hc
  · rfl
  · rw [List.eq_of_mem_replicate hc]
    rfl

/-- No text of a value begins with white space or with a bracket that closes. -/
theorem exists_render_eq_cons {j : Json} (h : j.isValid = true) (level : Nat) :
    ∃ c t, render level j = c :: t ∧ isSpace c = false ∧ c ≠ ']' ∧ c ≠ '\x7d' := by
  cases j with
  | bool b => cases b <;> exact ⟨_, _, rfl, by decide⟩
  | number digits =>
    obtain ⟨hne, hall⟩ := forall_of_isNumber h
    obtain ⟨c, t, rfl⟩ := List.exists_cons_of_ne_nil hne
    have hc : isNumberChar c = true := hall c List.mem_cons_self
    refine ⟨c, t, rfl, ?_, ?_, ?_⟩
    · refine Bool.eq_false_iff.mpr fun hspace => ?_
      simp only [isSpace, Bool.or_eq_true, beq_iff_eq] at hspace
      rcases hspace with ((rfl | rfl) | rfl) | rfl <;> cases hc
    · rintro rfl
      cases hc
    · rintro rfl
      cases hc
  | string s => exact ⟨_, _, rfl, by decide⟩
  | array items => cases items <;> exact ⟨_, _, rfl, by decide⟩
  | object fields => rcases fields with _ | ⟨⟨name, x⟩, fields⟩ <;> exact ⟨_, _, rfl, by decide⟩

theorem skip_render_append {j : Json} (h : j.isValid = true) (level : Nat) (t : Text) :
    skip (render level j ++ t) = render level j ++ t := by
  obtain ⟨c, u, hr, hc, -⟩ := exists_render_eq_cons h level
  rw [hr, List.cons_append, skip_cons hc]

/-! ### Containers -/

/-- What stands behind the first of several items: the others, and the end of their container. -/
def moreItems (level : Nat) (closing : Char) (items : List Text) (t : Text) : Text :=
  (items.flatMap fun p => ',' :: (newLine (level + 1) ++ p)) ++ (newLine level ++ closing :: t)

theorem container_cons_append (level : Nat) (opening closing : Char) (p : Text) (ps : List Text) (t : Text) :
    container level opening closing (p :: ps) ++ t =
      opening :: (newLine (level + 1) ++ (p ++ moreItems level closing ps t)) := by
  have hjoin : joinWith "," ((p :: ps).map (newLine (level + 1) ++ ·)) =
      newLine (level + 1) ++ p ++ ps.flatMap fun q => ',' :: (newLine (level + 1) ++ q) := by
    rw [List.map_cons, joinWith_cons_eq_flatMap, List.flatMap_map]
    rfl
  show (opening :: joinWith "," ((p :: ps).map (newLine (level + 1) ++ ·)) ++ newLine level ++ [closing]) ++ t = _
  rw [hjoin, moreItems]
  simp only [List.cons_append, List.append_assoc, List.nil_append]

theorem moreItems_cons (level : Nat) (closing : Char) (p : Text) (ps : List Text) (t : Text) :
    moreItems level closing (p :: ps) t = ',' :: (newLine (level + 1) ++ (p ++ moreItems level closing ps t)) := by
  simp only [moreItems, List.flatMap_cons, List.cons_append, List.append_assoc]

theorem endsNumber_moreItems (level : Nat) (closing : Char) (ps : List Text) (t : Text) :
    EndsNumber (moreItems level closing ps t) := by
  cases ps with
  | nil =>
    rintro c ⟨⟩
    rfl
  | cons p ps =>
    rw [moreItems_cons]
    rintro c ⟨⟩
    rfl

section Containers
variable {fuel : Nat} {t u v : Text} {x : Json} {name : Text} {c : Char}

theorem readValue?_array (h : skip t = c :: u) (hc : c ≠ ']') :
    readValue? (fuel + 1) ('[' :: t) = (readItems? fuel (c :: u)).map fun (items, t) => (array items, t) := by
  rw [readValue?, h]
  split
  · next heq => exact absurd (List.cons.inj heq).1 hc
  · rfl

theorem readItems?_of_comma (hx : readValue? fuel t = some (x, u)) (hu : skip u = ',' :: v) :
    readItems? (fuel + 1) t = (readItems? fuel (skip v)).map fun (items, t) => (x :: items, t) := by
  rw [readItems?, hx]
  simp only [Option.bind_eq_bind, Option.bind_some, hu]
  cases readItems? fuel (skip v) <;> rfl

theorem readItems?_of_closing (hx : readValue? fuel t = some (x, u)) (hu : skip u = ']' :: v) :
    readItems? (fuel + 1) t = some ([x], v) := by
  rw [readItems?, hx]
  simp only [Option.bind_eq_bind, Option.bind_some, hu]
  rfl

theorem readValue?_object (h : skip t = c :: u) (hc : c ≠ '\x7d') :
    readValue? (fuel + 1) ('\x7b' :: t) = (readFields? fuel (c :: u)).map fun (fields, t) => (object fields, t) := by
  rw [readValue?, h]
  split
  · next heq => exact absurd (List.cons.inj heq).1 hc
  · rfl

section Fields
variable {rest : Text} (hname : readString? fuel t = some (name, ':' :: ' ' :: u))
  (hu : skip (' ' :: u) = u) (hx : readValue? fuel u = some (x, v))
include hname hu hx

theorem readFields?_of_comma (hv : skip v = ',' :: rest) : readFields? (fuel + 1) ('"' :: t) =
    (readFields? fuel (skip rest)).map fun (fields, t) => ((name, x) :: fields, t) := by
  have hlead : (dropLead? ['"'] ('"' :: t) >>= readString? fuel) = some (name, ':' :: ' ' :: u) := hname
  have hcolon : dropLead? [':'] (skip (':' :: ' ' :: u)) = some (' ' :: u) := rfl
  rw [readFields?, hlead]
  simp only [Option.bind_eq_bind, Option.bind_some, hcolon, hu, hx, hv]
  cases readFields? fuel (skip rest) <;> rfl

theorem readFields?_of_closing (hv : skip v = '\x7d' :: rest) :
    readFields? (fuel + 1) ('"' :: t) = some ([(name, x)], rest) := by
  have hlead : (dropLead? ['"'] ('"' :: t) >>= readString? fuel) = some (name, ':' :: ' ' :: u) := hname
  have hcolon : dropLead? [':'] (skip (':' :: ' ' :: u)) = some (' ' :: u) := rfl
  rw [readFields?, hlead]
  simp only [Option.bind_eq_bind, Option.bind_some, hcolon, hu, hx, hv]
  rfl

end Fields

end Containers

/-! ### Values -/

theorem skip_moreItems_nil (level : Nat) {closing : Char} (h : isSpace closing = false) (t : Text) :
    skip (moreItems level closing [] t) = closing :: t := by
  show skip (newLine level ++ closing :: t) = _
  rw [skip_newLine_append, skip_cons h]

theorem skip_moreItems_cons (level : Nat) (closing : Char) (p : Text) (ps : List Text) (t : Text) :
    skip (moreItems level closing (p :: ps) t) =
      ',' :: (newLine (level + 1) ++ (p ++ moreItems level closing ps t)) := by
  rw [moreItems_cons, skip_cons rfl]

/-- The characters of items: those of the first one, and fewer of the others. -/
theorem length_moreItems_cons (level : Nat) (closing : Char) (p : Text) (ps : List Text) :
    (p ++ moreItems level closing ps []).length < (moreItems level closing (p :: ps) []).length := by
  rw [moreItems_cons, List.length_cons, @List.length_append _ (newLine _)]
  omega

theorem length_append_moreItems (level : Nat) (closing : Char) (p : Text) (ps : List Text) :
    p.length < (p ++ moreItems level closing ps []).length := by
  have hpos : 0 < (newLine level ++ closing :: []).length := by simp
  rw [moreItems, List.length_append, List.length_append]
  omega

theorem length_container (level : Nat) (opening closing : Char) (p : Text) (ps : List Text) :
    (p ++ moreItems level closing ps []).length < (container level opening closing (p :: ps)).length := by
  have h := container_cons_append level opening closing p ps []
  rw [List.append_nil] at h
  rw [h, List.length_cons, @List.length_append _ (newLine _)]
  omega

/-- The text of a field behind the quote that it begins with. -/
theorem renderField_append (name p t : Text) : (quote name ++ ": " ++ p) ++ t =
    '"' :: (name.flatMap escape ++ '"' :: ':' :: ' ' :: (p ++ t)) := by
  simp [quote]

theorem length_renderField (name p : Text) :
    (quote name ++ ": " ++ p).length = (name.flatMap escape).length + p.length + 4 := by
  simp [quote]
  omega

mutual

theorem readValue?_render : ∀ (j : Json) {level fuel : Nat} {t : Text}, j.isValid = true →
    (render level j).length ≤ fuel → EndsNumber t → readValue? fuel (render level j ++ t) = some (j, t)
  | bool b, level, 0, t, _, hfuel, _ => by cases b <;> cases hfuel
  | bool b, level, fuel + 1, t, _, _, _ => by cases b <;> rfl
  | number digits, level, 0, t, hvalid, hfuel, _ => by
    have hne := (forall_of_isNumber hvalid).1
    exact absurd (List.length_eq_zero_iff.mp (Nat.le_zero.mp hfuel)) hne
  | number digits, level, fuel + 1, t, hvalid, _, ht => by
    obtain ⟨hne, hall⟩ := forall_of_isNumber hvalid
    have hread := readNumber?_append hvalid ht
    obtain ⟨c, digits, rfl⟩ := List.exists_cons_of_ne_nil hne
    rw [render, List.cons_append, readValue?_of_isNumberChar (hall c List.mem_cons_self)]
    exact hread
  | string s, level, 0, t, _, hfuel, _ => by cases hfuel
  | string s, level, fuel + 1, t, _, hfuel, _ => by
    have hlen := length_le_length_escaped s
    have hs : s.length < fuel := by
      simp only [render, quote, List.cons_append, List.length_cons, List.length_append, List.length_nil] at hfuel
      omega
    have hread := readString?_escaped hs t
    rw [render, quote, List.cons_append, List.cons_append, List.append_assoc, List.singleton_append, readValue?, hread]
    rfl
  | array items, level, 0, t, _, hfuel, _ => by cases items <;> cases hfuel
  | array [], level, fuel + 1, t, _, _, _ => rfl
  | array (x :: xs), level, fuel + 1, t, hvalid, hfuel, _ => by
    have hx : x.isValid = true := (Bool.and_eq_true_iff.mp hvalid).1
    obtain ⟨c, u, hr, hspace, hc, -⟩ := exists_render_eq_cons hx (level + 1)
    have hlen := length_container level '[' ']' (render (level + 1) x) (renderItems (level + 1) xs)
    have hitems := @readItems?_render (x :: xs) level fuel t _ _ hvalid rfl
      (Nat.le_of_lt_succ (Nat.lt_of_lt_of_le hlen hfuel))
    rw [render, renderItems, container_cons_append]
    rw [hr, List.cons_append] at hitems ⊢
    rw [readValue?_array ((skip_newLine_append _ _).trans (skip_cons hspace _)) hc, hitems]
    rfl
  | object fields, level, 0, t, _, hfuel, _ => by rcases fields with _ | ⟨⟨name, x⟩, fields⟩ <;> cases hfuel
  | object [], level, fuel + 1, t, _, _, _ => rfl
  | object ((name, x) :: fields), level, fuel + 1, t, hvalid, hfuel, _ => by
    have hlen := length_container level '\x7b' '\x7d' (quote name ++ ": " ++ render (level + 1) x)
      (renderFields (level + 1) fields)
    have hfields := @readFields?_render ((name, x) :: fields) level fuel t _ _ hvalid rfl
      (Nat.le_of_lt_succ (Nat.lt_of_lt_of_le hlen hfuel))
    rw [render, renderFields, container_cons_append]
    rw [renderField_append] at hfields ⊢
    rw [readValue?_object ((skip_newLine_append _ _).trans (skip_cons rfl _)) (by decide), hfields]
    rfl

theorem readItems?_render : ∀ (items : List Json) {level fuel : Nat} {t p : Text} {ps : List Text},
    areValid items = true → renderItems (level + 1) items = p :: ps →
    (p ++ moreItems level ']' ps []).length ≤ fuel →
    readItems? fuel (p ++ moreItems level ']' ps t) = some (items, t)
  | [], level, fuel, t, p, ps, _, hr, _ => by cases hr
  | [x], level, fuel, t, p, ps, hvalid, hr, hfuel => by
    obtain ⟨rfl, rfl⟩ := List.cons.inj hr
    have hlen := length_append_moreItems level ']' (render (level + 1) x) (renderItems (level + 1) [])
    obtain ⟨n, rfl⟩ : ∃ n, fuel = n + 1 := ⟨fuel - 1, by omega⟩
    have hx := @readValue?_render x (level + 1) n (moreItems level ']' [] t) (Bool.and_eq_true_iff.mp hvalid).1
      (by omega) (endsNumber_moreItems _ _ _ _)
    exact readItems?_of_closing hx (skip_moreItems_nil level rfl t)
  | x :: y :: ys, level, fuel, t, p, ps, hvalid, hr, hfuel => by
    obtain ⟨rfl, rfl⟩ := List.cons.inj hr
    obtain ⟨hxv, hysv⟩ := Bool.and_eq_true_iff.mp hvalid
    have hyv : y.isValid = true := (Bool.and_eq_true_iff.mp hysv).1
    have hlen := length_append_moreItems level ']' (render (level + 1) x) (renderItems (level + 1) (y :: ys))
    obtain ⟨n, rfl⟩ : ∃ n, fuel = n + 1 := ⟨fuel - 1, by omega⟩
    have hx := @readValue?_render x (level + 1) n (moreItems level ']' (renderItems (level + 1) (y :: ys)) t) hxv
      (by omega) (endsNumber_moreItems _ _ _ _)
    have hmore := length_moreItems_cons level ']' (render (level + 1) y) (renderItems (level + 1) ys)
    have hys := @readItems?_render (y :: ys) level n t _ _ hysv rfl (by
      rw [List.length_append, renderItems] at hfuel
      omega)
    rw [readItems?_of_comma hx (skip_moreItems_cons _ _ _ _ _), skip_newLine_append, skip_render_append hyv, hys]
    rfl

theorem readFields?_render : ∀ (fields : List (Text × Json)) {level fuel : Nat} {t p : Text} {ps : List Text},
    fieldsAreValid fields = true → renderFields (level + 1) fields = p :: ps →
    (p ++ moreItems level '\x7d' ps []).length ≤ fuel →
    readFields? fuel (p ++ moreItems level '\x7d' ps t) = some (fields, t)
  | [], level, fuel, t, p, ps, _, hr, _ => by cases hr
  | [(name, x)], level, fuel, t, p, ps, hvalid, hr, hfuel => by
    obtain ⟨rfl, rfl⟩ := List.cons.inj hr
    have hxv : x.isValid = true := (Bool.and_eq_true_iff.mp hvalid).1
    have hlen := length_append_moreItems level '\x7d' (quote name ++ ": " ++ render (level + 1) x)
      (renderFields (level + 1) [])
    rw [length_renderField] at hlen
    have hescaped := length_le_length_escaped name
    obtain ⟨n, rfl⟩ : ∃ n, fuel = n + 1 := ⟨fuel - 1, by omega⟩
    have hname := @readString?_escaped n name (by omega) (':' :: ' ' :: (render (level + 1) x ++
      moreItems level '\x7d' [] t))
    have hx := @readValue?_render x (level + 1) n (moreItems level '\x7d' [] t) hxv (by omega)
      (endsNumber_moreItems _ _ _ _)
    rw [renderField_append]
    exact readFields?_of_closing hname (skip_render_append hxv _ _) hx (skip_moreItems_nil level rfl t)
  | (name, x) :: (other, y) :: fields, level, fuel, t, p, ps, hvalid, hr, hfuel => by
    obtain ⟨rfl, rfl⟩ := List.cons.inj hr
    obtain ⟨hxv, hvalid⟩ := Bool.and_eq_true_iff.mp hvalid
    have hlen := length_append_moreItems level '\x7d' (quote name ++ ": " ++ render (level + 1) x)
      (renderFields (level + 1) ((other, y) :: fields))
    have hmore := length_moreItems_cons level '\x7d' (quote other ++ ": " ++ render (level + 1) y)
      (renderFields (level + 1) fields)
    rw [length_renderField] at hlen
    have hescaped := length_le_length_escaped name
    obtain ⟨n, rfl⟩ : ∃ n, fuel = n + 1 := ⟨fuel - 1, by omega⟩
    have hname := @readString?_escaped n name (by omega) (':' :: ' ' :: (render (level + 1) x ++
      moreItems level '\x7d' (renderFields (level + 1) ((other, y) :: fields)) t))
    have hx := @readValue?_render x (level + 1) n
      (moreItems level '\x7d' (renderFields (level + 1) ((other, y) :: fields)) t) hxv (by omega)
      (endsNumber_moreItems _ _ _ _)
    have hfields := @readFields?_render ((other, y) :: fields) level n t _ _ hvalid rfl (by
      rw [List.length_append, renderFields] at hfuel
      omega)
    rw [renderField_append] at hfields
    rw [renderField_append, readFields?_of_comma hname (skip_render_append hxv _ _) hx (skip_moreItems_cons _ _ _ _ _),
      skip_newLine_append, renderField_append, skip_cons rfl, hfields]
    rfl

end

/-- The text that is written for a value is the text of that value. -/
theorem ofText?_pretty {j : Json} (h : j.isValid = true) : ofText? j.pretty = some j := by
  have hread := @readValue?_render j 0 ((render 0 j).length + 1) [] h (Nat.le_succ _) fun c hc => nomatch hc
  have hskip := skip_render_append h 0 []
  rw [List.append_nil] at hread hskip
  rw [pretty, ofText?, hskip, hread]
  rfl

end EndpointAtlas.Json
