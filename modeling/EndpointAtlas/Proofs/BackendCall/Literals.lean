import EndpointAtlas.BackendCall.FromSource
import EndpointAtlas.Proofs.Text.First
import EndpointAtlas.Proofs.Text.Pieces
import EndpointAtlas.Proofs.Text.Words
import Mathlib.Data.List.Basic

/-! Query parameters from literals in braces. The literal that is assigned to `query` is split at its commas, and
    the one that is assigned to `params` is searched for words before colons. On flat literals, where no value holds
    a comma, a closing brace or a word before a colon, the two ways find the same keys. -/

namespace EndpointAtlas.BackendCall
open Text

variable {s t u rest name inside block : Text} {before : Option Char}

/-! ### Where literals stand -/

/-- The opening of a literal that is assigned to `name`, up to its brace. -/
def OpeningAt (name : Text) : Pattern Unit := Behind name (Behind ['='] fun _ t rest => t = '\x7b' :: rest)

/-- A literal assigned to the word `name` opens between `s` and `u`, and `rest` follows its brace. -/
def Opens (name s u rest : Text) : Prop := startsWord s.getLast? = true ∧ OpeningAt name () u rest

/-- No literal is assigned to `name`. -/
def HoldsNone (name block : Text) : Prop := ∀ s u rest, block = s ++ u → ¬ Opens name s u rest

/-- One literal is assigned to `name`, and `inside` stands in its braces. -/
def HoldsOne (name inside block : Text) : Prop := ∃ s u rest, block = s ++ u ∧
  Opens name s u (inside ++ '\x7d' :: rest) ∧ ∀ s' u' rest', block = s' ++ u' → Opens name s' u' rest' → s' = s

/-- Reads the opening of a literal. -/
def readOpening? (name : Text) : Reader Unit := fun before t =>
  if startsWord before then
    (dropLead? name t).bind fun t => (dropLead? ['='] (trimStart t)).bind fun t =>
      (dropLead? ['\x7b'] (trimStart t)).map ((), ·)
  else none

theorem readOpening?_eq_some_iff :
    readOpening? name before t = some ((), rest) ↔ startsWord before = true ∧ OpeningAt name () t rest := by
  have hbrace : ∀ t a rest, (dropLead? ['\x7b'] t).map (Prod.mk () ·) = some (a, rest) ↔ t = '\x7b' :: rest := by
    intro t a rest
    simp [dropLead?_eq_some_iff]
  have hequals : ∀ t a rest, ((dropLead? ['='] t).bind fun t => (dropLead? ['\x7b'] (trimStart t)).map (Prod.mk () ·)) =
      some (a, rest) ↔ Behind ['='] (fun _ t rest => t = '\x7b' :: rest) a t rest :=
    fun t a rest => behind_iff (fun c x hc => by rw [dropLead?_cons_of_isBlank rfl hc]; rfl) hbrace
  unfold readOpening?
  by_cases hstart : startsWord before = true
  · simp only [hstart, if_true, true_and]
    exact behind_iff (fun c x hc => by rw [dropLead?_cons_of_isBlank rfl hc]; rfl) hequals
  · simp [hstart]

/-- The places where literals open can be told one by one. -/
theorem holdsOne_of_forall (n : Nat) (rest : Text)
    (hread : readOpening? name (block.take n).getLast? (block.drop n) = some ((), inside ++ '\x7d' :: rest))
    (honly : ∀ i ≤ block.length, (readOpening? name (block.take i).getLast? (block.drop i)).isSome → i = n) :
    HoldsOne name inside block := by
  refine ⟨block.take n, block.drop n, rest, (List.take_append_drop n block).symm, readOpening?_eq_some_iff.mp hread, ?_⟩
  intro s u rest' hsplit hopens
  have hlength : s.length = n := by
    refine honly s.length (by simp [hsplit]) ?_
    rw [hsplit, List.take_left, List.drop_left, readOpening?_eq_some_iff.mpr hopens]
    rfl
  rw [← hlength, hsplit, List.take_left]

theorem holdsNone_of_find? (h : find? (readOpening? name) none block = none) : HoldsNone name block := by
  intro s u rest hsplit hopens
  have hnone := find?_eq_none_iff.mp h s u hsplit
  rw [Option.or_none, readOpening?_eq_some_iff.mpr hopens] at hnone
  cases hnone

theorem readLiteral?_eq (name : Text) (before : Option Char) (t : Text) :
    readLiteral? name before t = (readOpening? name before t).bind fun x => upTo? '\x7d' x.2 := by
  unfold readLiteral? readOpening?
  by_cases hstart : startsWord before = true
  · simp only [hstart, Bool.not_true, Bool.false_eq_true, if_true, if_false, Option.bind_assoc, Option.bind_map]
    rfl
  · simp [hstart]

theorem readLiteral?_eq_some_iff : readLiteral? name before t = some (inside, rest) ↔
    startsWord before = true ∧ OpeningAt name () t (inside ++ '\x7d' :: rest) ∧ '\x7d' ∉ inside := by
  rw [readLiteral?_eq, Option.bind_eq_some_iff]
  constructor
  · rintro ⟨⟨_, u⟩, hopens, hclosed⟩
    obtain ⟨rfl, hbrace⟩ := upTo?_eq_some_iff.mp hclosed
    obtain ⟨hstart, hplace⟩ := readOpening?_eq_some_iff.mp hopens
    exact ⟨hstart, hplace, hbrace⟩
  · rintro ⟨hstart, hplace, hbrace⟩
    exact ⟨((), _), readOpening?_eq_some_iff.mpr ⟨hstart, hplace⟩, upTo?_eq_some_iff.mpr ⟨rfl, hbrace⟩⟩

section Found
variable {k : Text × Text → Option (Text × Text)}

/-- The one literal is found, also where what is read has to pass a test `k`. -/
theorem first?_readLiteral? (h : HoldsOne name inside block) (hbrace : '\x7d' ∉ inside)
    (hk : ∀ rest, k (inside, rest) = some (inside, rest)) :
    first? (fun before t => (readLiteral? name before t).bind k) block = some inside := by
  obtain ⟨s, u, rest, rfl, ⟨hstart, hplace⟩, honly⟩ := h
  have hread : readLiteral? name s.getLast? u = some (inside, rest) :=
    readLiteral?_eq_some_iff.mpr ⟨hstart, hplace, hbrace⟩
  have hfound : (readLiteral? name s.getLast? u).bind k = some (inside, rest) := by
    rw [hread]
    exact hk rest
  -- What is read before `u` would be a literal that opens elsewhere.
  refine first?_append_of_eq_some (misses_of_split fun v c w hsplit => ?_) hfound
  rw [Option.or_none]
  cases hother : readLiteral? name v.getLast? (c :: (w ++ u)) with
  | none => rfl
  | some x =>
    obtain ⟨hstart', hplace', -⟩ := readLiteral?_eq_some_iff.mp hother
    have hsame : v = s := honly v (c :: (w ++ u)) _ (by simp [hsplit]) ⟨hstart', hplace'⟩
    simp [hsame] at hsplit

theorem first?_readLiteral?_eq_none (h : HoldsNone name block) :
    first? (fun before t => (readLiteral? name before t).bind k) block = none := by
  rw [first?, Option.map_eq_none_iff, find?_eq_none_iff]
  intro s u hsplit
  rw [Option.or_none]
  cases hread : readLiteral? name s.getLast? u with
  | none => rfl
  | some x =>
    obtain ⟨hstart, hplace, -⟩ := readLiteral?_eq_some_iff.mp hread
    exact absurd ⟨hstart, hplace⟩ (h s u _ hsplit)

end Found

/-! ### Words before colons -/

/-- No word character stands before a colon, with or without blanks between the two. -/
def HasNoKey (t : Text) : Prop := ∀ s c blanks u, t = s ++ c :: (blanks ++ ':' :: u) →
  (∀ b ∈ blanks, isBlank b = true) → isWordChar c = false

theorem endsWord_gap {blanks : Text} (h : ∀ b ∈ blanks, isBlank b = true) (t : Text) :
    endsWord (blanks ++ ':' :: t) = true := by
  cases blanks with
  | nil => rfl
  | cons b blanks => simp [endsWord, isWordChar_of_isBlank (h b List.mem_cons_self)]

theorem readKey?_eq_some_iff : readKey? before t = some (s, rest) ↔
    IsWord s ∧ ∃ blanks, t = s ++ (blanks ++ ':' :: rest) ∧ ∀ b ∈ blanks, isBlank b = true := by
  have hread : readKey? before t = (word? t).bind fun x => (dropLead? [':'] (trimStart x.2)).map (x.1, ·) := by
    rw [readKey?]
    cases word? t with
    | none => rfl
    | some x => exact (Option.map_eq_bind ..).symm
  simp only [hread, Option.bind_eq_some_iff, Option.map_eq_some_iff, dropLead?_eq_some_iff, Prod.exists,
    word?_eq_some_iff, Prod.mk.injEq]
  constructor
  · rintro ⟨w, v, ⟨hword, -, rfl⟩, rest, hcolon, rfl, rfl⟩
    refine ⟨hword, v.takeWhile isBlank, ?_, fun b hb => List.mem_takeWhile_imp hb⟩
    rw [← List.singleton_append, ← hcolon, trimStart, List.takeWhile_append_dropWhile]
  · rintro ⟨hword, blanks, rfl, hblanks⟩
    exact ⟨s, _, ⟨hword, endsWord_gap hblanks rest, rfl⟩, rest,
      trimStart_append_of_isBlank hblanks (by simp [isBlank, blankCodes]), rfl, rfl⟩

theorem HasNoKey.readKey?_eq_none (h : HasNoKey (s ++ u)) : readKey? before u = none := by
  rw [Option.eq_none_iff_forall_ne_some]
  rintro ⟨key, rest⟩ hread
  obtain ⟨hword, blanks, rfl, hblanks⟩ := readKey?_eq_some_iff.mp hread
  obtain ⟨front, c, rfl⟩ := (List.eq_nil_or_concat' key).resolve_left hword.1
  have hnot := h (s ++ front) c blanks rest (by simp) hblanks
  have hc : isWordChar c = true := hword.2 c (by simp)
  simp [hnot] at hc

theorem hasNoKey_iff : HasNoKey t ↔ find? readKey? none t = none := by
  rw [find?_eq_none_iff]
  constructor
  · rintro h s u rfl
    exact h.readKey?_eq_none
  · rintro h s c blanks u rfl hblanks
    by_contra hc
    have hword : IsWord [c] := ⟨by simp, by simpa using hc⟩
    have hread : readKey? (s.getLast?.or none) (c :: (blanks ++ ':' :: u)) = some ([c], u) :=
      readKey?_eq_some_iff.mpr ⟨hword, blanks, rfl, hblanks⟩
    rw [h s _ rfl] at hread
    cases hread

instance (t : Text) : Decidable (HasNoKey t) := decidable_of_iff _ hasNoKey_iff.symm

/-- Blanks around a text neither are words nor end in colons. -/
theorem HasNoKey.within_blanks (h : HasNoKey t) {gap trail : Text} (hgap : ∀ b ∈ gap, isBlank b = true)
    (htrail : ∀ b ∈ trail, isBlank b = true) : HasNoKey (gap ++ (t ++ trail)) := by
  intro s c blanks u hsplit hblanks
  by_contra hc
  have hword : isWordChar c = true := by simpa using hc
  -- The word character stands behind the blanks in front, and the colon before those at the end.
  have hgap' : ∃ s', t ++ trail = s' ++ c :: (blanks ++ ':' :: u) := by
    rcases List.append_eq_append_iff.mp hsplit with ⟨z, -, hz⟩ | ⟨z, rfl, hz⟩
    · exact ⟨z, hz⟩
    · cases z with
      | nil => exact ⟨[], hz.symm⟩
      | cons d z =>
        have hd : isBlank c = true := (List.cons.inj hz).1 ▸ hgap d (by simp)
        rw [isWordChar_of_isBlank hd] at hword
        cases hword
  obtain ⟨s', hs'⟩ := hgap'
  have hfront : t ++ trail = (s' ++ c :: (blanks ++ [':'])) ++ u := by simp [hs']
  rcases List.append_eq_append_iff.mp hfront with ⟨z, hz, rfl⟩ | ⟨z, rfl, -⟩
  · rcases List.eq_nil_or_concat' z with rfl | ⟨z, d, rfl⟩
    · exact hc (h s' c blanks [] (by simpa using hz.symm) hblanks)
    · have hlast : ':' = d := by
        have := congrArg List.getLast? hz
        simpa [List.getLast?_append, List.getLast?_cons] using this
      have hcolon : isBlank ':' = true := hlast ▸ htrail d (by simp)
      cases hcolon
  · exact hc (h s' c blanks z (by simp) hblanks)

/-- Behind a text without keys a key is not read before the next comma. -/
theorem HasNoKey.misses (h : HasNoKey t) (hrest : ∀ c ∈ rest.head?, c = ',') : Misses readKey? before t rest := by
  refine misses_of_split fun s c v hsplit => ?_
  rw [Option.eq_none_iff_forall_ne_some]
  rintro ⟨key, u⟩ hread
  obtain ⟨hword, blanks, hkey, hblanks⟩ := readKey?_eq_some_iff.mp hread
  have hcomma : ',' ∉ key ++ (blanks ++ [':']) := by
    have hblank : ',' ∉ blanks := fun hmem => Bool.noConfusion (hblanks _ hmem)
    simp [hword.not_mem, hblank, isWordChar, isIdentChar]
  have hinside : HasNoKey (s ++ c :: v) := hsplit ▸ h
  -- The key and its colon lie within the text, or go on over the comma behind it.
  have hcut : (c :: v) ++ rest = (key ++ (blanks ++ [':'])) ++ u := by simpa using hkey
  rcases List.append_eq_append_iff.mp hcut with ⟨z, hz, hu⟩ | ⟨z, hz, -⟩
  · cases z with
    | nil =>
      have hinner : readKey? none (c :: v) = some (key, []) :=
        readKey?_eq_some_iff.mpr ⟨hword, blanks, by simpa using hz.symm, hblanks⟩
      rw [hinside.readKey?_eq_none] at hinner
      cases hinner
    | cons d z =>
      have hd : d = ',' := hrest d (by simp [hu])
      exact hcomma (by simp [hz, hd])
  · have hinner : readKey? none (c :: v) = some (key, z) :=
      readKey?_eq_some_iff.mpr ⟨hword, blanks, by simpa using hz, hblanks⟩
    rw [hinside.readKey?_eq_none] at hinner
    cases hinner

/-! ### Flat literals -/

/-- A key and its value, with blanks around both. -/
structure Pair where
  lead : Text
  key : Text
  gap : Text
  value : Text
  trail : Text
  lead_blank : ∀ c ∈ lead, isBlank c = true
  isWord : IsWord key
  gap_blank : ∀ c ∈ gap, isBlank c = true
  flat : ',' ∉ value ∧ '\x7d' ∉ value
  hasNoKey : HasNoKey value
  trail_blank : ∀ c ∈ trail, isBlank c = true

/-- The text of a pair. -/
def Pair.text (p : Pair) : Text := p.lead ++ (p.key ++ ':' :: (p.gap ++ (p.value ++ p.trail)))

/-- What stands in the braces of a literal: one or more pairs between commas, and blanks behind a last comma if there
    is one. -/
structure FlatLiteral where
  pairs : List Pair
  nonempty : pairs ≠ []
  tail : Option Text
  tail_blank : ∀ t ∈ tail, ∀ c ∈ t, isBlank c = true

namespace FlatLiteral

/-- The texts between the commas. -/
def pieces (l : FlatLiteral) : List Text := l.pairs.map Pair.text ++ l.tail.toList

/-- The text between the braces. -/
def content (l : FlatLiteral) : Text := joinWith [','] l.pieces

/-- The keys of the pairs, in order. -/
def keys (l : FlatLiteral) : List Text := l.pairs.map Pair.key

end FlatLiteral

theorem Pair.not_mem_text (p : Pair) {c : Char} (hblank : isBlank c = false) (hword : isWordChar c = false)
    (hc : c ≠ ':') (hvalue : c ∉ p.value) : c ∉ p.text := by
  have hout : ∀ s : Text, (∀ d ∈ s, isBlank d = true) → c ∉ s := fun s hs hmem => by
    rw [hs c hmem] at hblank
    cases hblank
  simp [Pair.text, hout _ p.lead_blank, p.isWord.not_mem hword, hc, hout _ p.gap_blank, hvalue, hout _ p.trail_blank]

theorem FlatLiteral.not_mem_of_mem_pieces (l : FlatLiteral) {c : Char} (hblank : isBlank c = false)
    (hword : isWordChar c = false) (hc : c ≠ ':') (hvalue : ∀ p ∈ l.pairs, c ∉ p.value) : ∀ t ∈ l.pieces, c ∉ t := by
  intro t ht
  rcases List.mem_append.mp ht with hpair | htail
  · obtain ⟨p, hp, rfl⟩ := List.mem_map.mp hpair
    exact p.not_mem_text hblank hword hc (hvalue p hp)
  · intro hmem
    rw [l.tail_blank t (Option.mem_toList.mp htail) c hmem] at hblank
    cases hblank

theorem FlatLiteral.brace_not_mem_content (l : FlatLiteral) : '\x7d' ∉ l.content := fun hmem => by
  rcases mem_joinWith hmem with hsep | ⟨t, ht, hmem⟩
  · cases List.mem_singleton.mp hsep
  · exact l.not_mem_of_mem_pieces rfl rfl (by decide) (fun p _ => p.flat.2) t ht hmem

theorem FlatLiteral.content_ne_nil (l : FlatLiteral) : l.content ≠ [] := by
  obtain ⟨p, pairs, hpairs⟩ := List.exists_cons_of_ne_nil l.nonempty
  have hcolon : ':' ∈ l.content := mem_joinWith_of_mem (p := p.text) (by simp [pieces, hpairs]) (by simp [Pair.text])
  exact List.ne_nil_of_mem hcolon

/-! ### Both ways of reading -/

theorem Pair.trim_takeWhile (p : Pair) : trim (p.text.takeWhile (· != ':')) = p.key := by
  have hlead : ∀ c ∈ p.lead ++ p.key, (c != ':') = true := by
    intro c hc
    rw [bne_iff_ne]
    rintro rfl
    rcases List.mem_append.mp hc with hblank | hkey
    · cases p.lead_blank _ hblank
    · exact p.isWord.not_mem rfl hkey
  rw [Pair.text, ← List.append_assoc, List.takeWhile_append_of_pos hlead, List.takeWhile_cons_of_neg (by simp),
    List.append_nil, trim_append_of_isBlank p.lead_blank, p.isWord.trim_eq]

/-- Between the commas every piece with a pair tells its key, and blanks behind the last comma tell none. -/
theorem queryKeys_content (l : FlatLiteral) : queryKeys l.content = l.keys := by
  have hcommas : ∀ t ∈ l.pieces, ',' ∉ t := l.not_mem_of_mem_pieces rfl rfl (by decide) fun p _ => p.flat.1
  have hpieces : l.pieces ≠ [] := by simp [FlatLiteral.pieces, l.nonempty]
  have hkeys : ∀ k ∈ l.pairs.map Pair.key, (!k.isEmpty) = true := by
    simp only [List.mem_map]
    rintro _ ⟨p, -, rfl⟩
    simp [p.isWord.1]
  have htail : ∀ t ∈ l.tail.toList, trim (t.takeWhile (· != ':')) = [] := by
    intro t ht
    have hblank : ∀ c ∈ t.takeWhile (· != ':'), isBlank c = true := fun c hc =>
      l.tail_blank t (Option.mem_toList.mp ht) c ((List.takeWhile_subset _) hc)
    simpa [trim, trimStart, trimEnd] using trim_append_of_isBlank hblank []
  rw [queryKeys, FlatLiteral.content, splitOn_joinWith hpieces hcommas, FlatLiteral.pieces, List.map_append,
    List.map_map, List.filter_append]
  have hlast : (l.tail.toList.map fun t => trim (t.takeWhile (· != ':'))).filter (!·.isEmpty) = [] := by
    rw [List.filter_eq_nil_iff]
    intro k hk
    obtain ⟨t, ht, rfl⟩ := List.mem_map.mp hk
    simp [htail t ht]
  rw [hlast, List.append_nil, List.map_congr_left fun p _ => p.trim_takeWhile]
  exact List.filter_eq_self.mpr hkeys

theorem misses_readKey?_of_isBlank (h : ∀ c ∈ s, isBlank c = true) : Misses readKey? before s t :=
  misses_of_forall fun c hc before u => by
    have hword : word? (c :: u) = none := by
      rw [word?, List.takeWhile_cons_of_neg (by simp [isWordChar_of_isBlank (h c hc)])]
    rw [readKey?, hword]
    rfl

/-- The search finds the key of a pair and goes on behind the pair. -/
theorem Pair.findAll_readKey? (p : Pair) (before : Option Char) (rest : Text) (hrest : ∀ c ∈ rest.head?, c = ',') :
    ∃ last, findAll readKey? before 0 (p.text ++ rest) = p.key :: findAll readKey? last 0 rest := by
  have hkey : ∀ b u, readKey? b ((p.key ++ [':']) ++ u) = some (p.key, u) := fun b u =>
    readKey?_eq_some_iff.mpr ⟨p.isWord, [], by simp, by simp⟩
  have hbody : HasNoKey (p.gap ++ (p.value ++ p.trail)) := p.hasNoKey.within_blanks p.gap_blank p.trail_blank
  have htext : p.text ++ rest = p.lead ++ ((p.key ++ [':']) ++ ((p.gap ++ (p.value ++ p.trail)) ++ rest)) := by
    simp [Pair.text]
  rw [htext, findAll_append_of_misses (misses_readKey?_of_isBlank p.lead_blank),
    findAll_append_of_eq_some (hkey _ _) (by simp), findAll_append_of_misses (hbody.misses hrest)]
  exact ⟨_, rfl⟩

theorem findAll_readKey?_joinWith (pairs : List Pair) (tail : Option Text)
    (htail : ∀ t ∈ tail, ∀ c ∈ t, isBlank c = true) :
    findAll readKey? before 0 (joinWith [','] (pairs.map Pair.text ++ tail.toList)) = pairs.map Pair.key := by
  induction pairs generalizing before with
  | nil =>
    cases tail with
    | none => rfl
    | some t =>
      show findAll readKey? before 0 t = []
      have hmisses : Misses readKey? before t [] := misses_readKey?_of_isBlank (htail t rfl)
      have hnone := findAll_append_of_misses hmisses
      rwa [List.append_nil] at hnone
  | cons p pairs ih =>
    rw [List.map_cons, List.map_cons, List.cons_append]
    by_cases hlast : pairs.map Pair.text ++ tail.toList = []
    · obtain ⟨last, h⟩ := p.findAll_readKey? before [] (by simp)
      rw [hlast, joinWith, ← List.append_nil p.text, h]
      have hpairs : pairs = [] := List.map_eq_nil_iff.mp (List.append_eq_nil_iff.mp hlast).1
      rw [hpairs]
      rfl
    · let rest := ',' :: joinWith [','] (pairs.map Pair.text ++ tail.toList)
      obtain ⟨last, h⟩ := p.findAll_readKey? before rest (by simp [rest])
      have hcomma : ∀ u, findAll readKey? last 0 (',' :: u) = findAll readKey? (some ',') 0 u := fun u => rfl
      rw [joinWith_cons hlast, List.append_assoc, List.singleton_append, h, hcomma, ih]

theorem all_readKey?_content (l : FlatLiteral) : all readKey? l.content = l.keys :=
  findAll_readKey?_joinWith l.pairs l.tail l.tail_blank

/-! ### The keys of a block -/

/-- The keys that `g` finds in the first literal assigned to `name` that passes the test `k`. -/
def keysIn (name : Text) (k : Text × Text → Option (Text × Text)) (g : Text → List Text) (block : Text) : List Text :=
  ((first? (fun before t => (readLiteral? name before t).bind k) block).map g).getD []

theorem queryParamsOf_eq (block : Text) :
    queryParamsOf block = keysIn "query" nonempty? queryKeys block ++ keysIn "params" some (all readKey?) block := by
  simp only [keysIn, Option.bind_fun_some]
  rfl

section Keys
variable {k : Text × Text → Option (Text × Text)} {g : Text → List Text} {l : FlatLiteral}

theorem keysIn_of_holdsOne (h : HoldsOne name l.content block) (hk : ∀ rest, k (l.content, rest) = some (l.content, rest))
    (hg : g l.content = l.keys) : keysIn name k g block = l.keys := by
  rw [keysIn, first?_readLiteral? h l.brace_not_mem_content hk, Option.map_some, Option.getD_some, hg]

theorem keysIn_of_holdsNone (h : HoldsNone name block) : keysIn name k g block = [] := by
  rw [keysIn, first?_readLiteral?_eq_none h, Option.map_none, Option.getD_none]

end Keys

theorem queryKeys_of_holdsOne {l : FlatLiteral} (h : HoldsOne "query" l.content block) :
    keysIn "query" nonempty? queryKeys block = l.keys :=
  keysIn_of_holdsOne h (fun rest => by simp [nonempty?, l.content_ne_nil]) (queryKeys_content l)

theorem paramsKeys_of_holdsOne {l : FlatLiteral} (h : HoldsOne "params" l.content block) :
    keysIn "params" some (all readKey?) block = l.keys :=
  keysIn_of_holdsOne h (fun _ => rfl) (all_readKey?_content l)

/-- The literals of `query` and `params` tell the same keys in the same order, and a block with both tells those of
    `query` first, wherever the two stand. -/
theorem queryParams_flatLiteral (version fileVersion block : Text) (l l' : FlatLiteral) :
    (HoldsOne "query" l.content block → HoldsNone "params" block →
      (ofBlock version fileVersion block).queryParams = l.keys) ∧
    (HoldsOne "params" l.content block → HoldsNone "query" block →
      (ofBlock version fileVersion block).queryParams = l.keys) ∧
    (HoldsOne "query" l.content block → HoldsOne "params" l'.content block →
      (ofBlock version fileVersion block).queryParams = l.keys ++ l'.keys) := by
  have hparams : (ofBlock version fileVersion block).queryParams = queryParamsOf block := rfl
  rw [hparams, queryParamsOf_eq]
  refine ⟨fun h h' => ?_, fun h h' => ?_, fun h h' => ?_⟩
  · rw [queryKeys_of_holdsOne h, keysIn_of_holdsNone h', List.append_nil]
  · rw [keysIn_of_holdsNone h', paramsKeys_of_holdsOne h, List.nil_append]
  · rw [queryKeys_of_holdsOne h, paramsKeys_of_holdsOne h']

/-- Two pairs with one key, each on a line of its own, and a comma behind the second. -/
def idTwice : FlatLiteral where
  pairs :=
    [⟨"\n  ", "id", " ", "params[:id]", "", List.all_eq_true.mp rfl, ⟨by decide, List.all_eq_true.mp rfl⟩,
        List.all_eq_true.mp rfl, by decide, by decide, List.all_eq_true.mp rfl⟩,
      ⟨"\n  ", "id", " ", "(a || b)", " ", List.all_eq_true.mp rfl, ⟨by decide, List.all_eq_true.mp rfl⟩,
        List.all_eq_true.mp rfl, by decide, by decide, List.all_eq_true.mp rfl⟩]
  nonempty := by decide
  tail := some "\n"
  tail_blank := fun _ ht => Option.some.inj ht ▸ List.all_eq_true.mp rfl

/-- One pair on the line of its literal. -/
def page : FlatLiteral where
  pairs :=
    [⟨"", "page", "", "1", "", List.all_eq_true.mp rfl, ⟨by decide, List.all_eq_true.mp rfl⟩,
        List.all_eq_true.mp rfl, by decide, by decide, List.all_eq_true.mp rfl⟩]
  nonempty := by decide
  tail := none
  tail_blank := by decide

theorem queryParams_idTwice_page :
    (ofBlock "V1" "V1" "query = \x7b\n  id: params[:id],\n  id: (a || b) ,\n\x7d").queryParams =
      ["id".toList, "id".toList] ∧
    (ofBlock "V1" "V1" "params = \x7b\n  id: params[:id],\n  id: (a || b) ,\n\x7d").queryParams =
      ["id".toList, "id".toList] ∧
    (ofBlock "V1" "V1" "params =\x7bpage:1\x7d\nquery= \x7b\n  id: params[:id],\n  id: (a || b) ,\n\x7d").queryParams =
      ["id".toList, "id".toList, "page".toList] :=
  ⟨(queryParams_flatLiteral _ _ _ idTwice page).1 (holdsOne_of_forall 0 [] (by decide) (by decide +kernel))
      (holdsNone_of_find? (by decide +kernel)),
    (queryParams_flatLiteral _ _ _ idTwice page).2.1
      (holdsOne_of_forall 0 [] (by decide) (by decide +kernel)) (holdsNone_of_find? (by decide +kernel)),
    (queryParams_flatLiteral _ _ _ idTwice page).2.2
      (holdsOne_of_forall 17 [] (by decide +kernel) (by decide +kernel))
      (holdsOne_of_forall 0 "\nquery= \x7b\n  id: params[:id],\n  id: (a || b) ,\n\x7d"
        (by decide +kernel) (by decide +kernel))⟩

end EndpointAtlas.BackendCall
