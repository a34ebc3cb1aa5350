import EndpointAtlas.Proofs.Text.Blank
import EndpointAtlas.Text.Find

/-! Where a pattern is found first. It is found behind all that its reader refuses, and a reader refuses a
    text as a whole for one of few reasons: no character of the text can begin the pattern, or a character
    that the pattern needs is not there. -/

namespace EndpointAtlas.Text
variable {α : Type} {r : Reader α} {before : Option Char} {s t : Text}

theorem getLast?_cons_or (c : Char) (s : Text) (before : Option Char) :
    (c :: s).getLast?.or before = s.getLast?.or (some c) := by
  rw [List.getLast?_cons]
  cases s.getLast? <;> rfl

/-! ### Refused texts -/

/-- `r` succeeds at no character of `s` when `t` follows `s`. -/
def Misses (r : Reader α) (before : Option Char) : Text → Text → Prop
  | [], _ => True
  | c :: s, t => r before (c :: (s ++ t)) = none ∧ Misses r (some c) s t

theorem misses_append {s' : Text} (h : Misses r before s (s' ++ t))
    (h' : Misses r (s.getLast?.or before) s' t) : Misses r before (s ++ s') t := by
  induction s generalizing before with
  | nil => exact h'
  | cons c s ih =>
    rw [getLast?_cons_or] at h'
    have hc : r before (c :: (s ++ s' ++ t)) = none := by
      rw [List.append_assoc]
      exact h.1
    exact ⟨hc, ih h.2 h'⟩

theorem misses_of_split
    (h : ∀ u c v, s = u ++ c :: v → r (u.getLast?.or before) (c :: (v ++ t)) = none) : Misses r before s t := by
  induction s generalizing before with
  | nil => trivial
  | cons c s ih =>
    refine ⟨h [] c s rfl, ih fun u d v hs => ?_⟩
    have hsplit := h (c :: u) d v (by rw [hs, List.cons_append])
    rwa [getLast?_cons_or] at hsplit

theorem Misses.eq_none {u v : Text} {c : Char} (h : Misses r before (u ++ c :: v) t) :
    r (u.getLast?.or before) (c :: (v ++ t)) = none := by
  induction u generalizing before with
  | nil => exact h.1
  | cons d u ih =>
    rw [getLast?_cons_or]
    exact ih h.2

theorem misses_of_forall (h : ∀ c ∈ s, ∀ b u, r b (c :: u) = none) : Misses r before s t :=
  misses_of_split fun u c v hs => h c (by simp [hs]) _ _

/-- A pattern that begins with `lead` and `d` is met at the first `d` and not before. -/
theorem misses_of_marker {lead : Text} {d : Char}
    (hr : ∀ c ∈ s, ∀ b u x, r b (c :: u) = some x → ∃ rest, c :: u = lead ++ d :: rest)
    (hlead : d ∉ lead) (hs : d ∉ s) : Misses r before s (lead ++ d :: t) := by
  refine misses_of_split fun u c v hsplit => ?_
  rw [Option.eq_none_iff_forall_ne_some]
  intro x hx
  have hc : c ∈ s := by simp [hsplit]
  have hv : d ∉ c :: v := fun hd => hs (by rw [hsplit]; exact List.mem_append_right _ hd)
  obtain ⟨rest, hrest⟩ := hr c hc _ _ x hx
  -- The first `d` ends both readings, so that they are of equal length.
  have hfirst : upTo? d (c :: (v ++ (lead ++ d :: t))) = some (c :: v ++ lead, t) := by
    rw [upTo?_eq_some_iff, List.mem_append, not_or]
    exact ⟨by simp, hv, hlead⟩
  have hlast : upTo? d (c :: (v ++ (lead ++ d :: t))) = some (lead, rest) :=
    upTo?_eq_some_iff.mpr ⟨hrest, hlead⟩
  rw [hfirst] at hlast
  have hlength := congrArg (fun y => y.1.length) (Option.some.inj hlast)
  simp only [List.length_append, List.length_cons] at hlength
  omega

/-! ### Found patterns -/

theorem find?_append_of_misses (h : Misses r before s t) :
    find? r before (s ++ t) = find? r (s.getLast?.or before) t := by
  induction s generalizing before with
  | nil => rfl
  | cons c s ih =>
    rw [getLast?_cons_or, List.cons_append, find?, h.1]
    exact ih h.2

theorem find?_of_eq_some {x : α × Text} (h : r before t = some x) : find? r before t = some x := by
  cases t with
  | nil => exact h
  | cons c t => rw [find?, h]

theorem find?_append_of_eq_some {x : α × Text} (h : Misses r before s t) (hx : r (s.getLast?.or before) t = some x) :
    find? r before (s ++ t) = some x := by
  rw [find?_append_of_misses h, find?_of_eq_some hx]

/-- What is found stands behind a text that the reader refuses. -/
theorem find?_eq_some_iff {x : α × Text} : find? r before t = some x ↔
    ∃ s u, t = s ++ u ∧ Misses r before s u ∧ r (s.getLast?.or before) u = some x := by
  refine ⟨fun h => ?_, ?_⟩
  · induction t generalizing before with
    | nil => exact ⟨[], [], rfl, trivial, h⟩
    | cons c t ih =>
      rw [find?] at h
      split at h
      · next found hread =>
        cases h
        exact ⟨[], c :: t, rfl, trivial, hread⟩
      · next hread =>
        obtain ⟨s, u, rfl, hmisses, hx⟩ := ih h
        exact ⟨c :: s, u, rfl, ⟨hread, hmisses⟩, by rwa [getLast?_cons_or]⟩
  · rintro ⟨s, u, rfl, hmisses, hx⟩
    exact find?_append_of_eq_some hmisses hx

theorem find?_eq_none_iff :
    find? r before t = none ↔ ∀ s u, t = s ++ u → r (s.getLast?.or before) u = none := by
  induction t generalizing before with
  | nil =>
    refine ⟨fun h s u hsplit => ?_, fun h => h [] [] rfl⟩
    obtain ⟨rfl, rfl⟩ := List.append_eq_nil_iff.mp hsplit.symm
    exact h
  | cons c t ih =>
    have hsplits : (∀ s u, c :: t = s ++ u → r (s.getLast?.or before) u = none) ↔
        r before (c :: t) = none ∧ ∀ s u, t = s ++ u → r (s.getLast?.or (some c)) u = none := by
      refine ⟨fun h => ⟨h [] _ rfl, fun s u hsplit => ?_⟩, fun h s u hsplit => ?_⟩
      · rw [← getLast?_cons_or]
        exact h (c :: s) u (by rw [hsplit, List.cons_append])
      · cases s with
        | nil =>
          obtain rfl : u = c :: t := hsplit.symm
          exact h.1
        | cons d s =>
          obtain ⟨rfl, htail⟩ := List.cons.inj hsplit
          rw [getLast?_cons_or]
          exact h.2 s u htail
    rw [hsplits, ← ih, find?]
    cases r before (c :: t) <;> simp

theorem first?_append_of_eq_some {a : α} {rest : Text} (h : Misses r none s t) (hx : r s.getLast? t = some (a, rest)) :
    first? r (s ++ t) = some a := by
  have hlast : s.getLast?.or none = s.getLast? := by cases s.getLast? <;> rfl
  rw [← hlast] at hx
  rw [first?, find?_append_of_eq_some h hx]
  rfl

theorem find?_eq_none (h : Misses r before t []) (hend : ∀ b, r b [] = none) : find? r before t = none := by
  have hfind := find?_append_of_misses h
  rw [List.append_nil] at hfind
  rw [hfind]
  exact hend _

/-! ### All patterns -/

theorem findAll_append_of_misses (h : Misses r before s t) :
    findAll r before 0 (s ++ t) = findAll r (s.getLast?.or before) 0 t := by
  induction s generalizing before with
  | nil => rfl
  | cons c s ih =>
    rw [getLast?_cons_or, List.cons_append, findAll, h.1]
    exact ih h.2

theorem findAll_skip (before : Option Char) (s t : Text) :
    findAll r before s.length (s ++ t) = findAll r (s.getLast?.or before) 0 t := by
  induction s generalizing before with
  | nil => rfl
  | cons c s ih =>
    rw [getLast?_cons_or, List.length_cons, List.cons_append, findAll]
    exact ih (some c)

/-- A success is counted, and the search goes on behind what it has read. -/
theorem findAll_append_of_eq_some {a : α} (h : r before (s ++ t) = some (a, t)) (hne : s ≠ []) :
    findAll r before 0 (s ++ t) = a :: findAll r (s.getLast?.or before) 0 t := by
  cases s with
  | nil => exact absurd rfl hne
  | cons c s =>
    have hskip : (s ++ t).length - t.length = s.length := by simp
    rw [List.cons_append] at h
    rw [getLast?_cons_or, List.cons_append, findAll, h]
    dsimp only
    rw [hskip, findAll_skip]

theorem findAll_eq_nil (h : ∀ s u, t = s ++ u → r (s.getLast?.or before) u = none) : findAll r before 0 t = [] := by
  have hmisses : Misses r before t [] := misses_of_split fun u c v hsplit => h u _ (by rw [hsplit, List.append_nil])
  have hfind := findAll_append_of_misses hmisses
  rw [List.append_nil] at hfind
  rw [hfind]
  rfl

/-! ### What was found was read -/

theorem orElse_eq_some_iff {x y : Option α} {a : α} : (x <|> y) = some a ↔ x = some a ∨ x = none ∧ y = some a := by
  cases x <;> simp

theorem exists_reading_of_find? {a : α} {rest : Text} (h : find? r before t = some (a, rest)) :
    ∃ b u, r b u = some (a, rest) := by
  induction t generalizing before with
  | nil => exact ⟨before, [], h⟩
  | cons c t ih =>
    rw [find?] at h
    split at h
    · next found hread =>
      cases h
      exact ⟨before, c :: t, hread⟩
    · exact ih h

theorem exists_reading_of_first? {a : α} (h : first? r t = some a) : ∃ b u rest, r b u = some (a, rest) := by
  obtain ⟨⟨a', rest⟩, hfind, rfl⟩ := Option.map_eq_some_iff.mp h
  obtain ⟨b, u, hread⟩ := exists_reading_of_find? hfind
  exact ⟨b, u, rest, hread⟩

theorem exists_reading_of_mem_findAll {a : α} {skip : Nat} (h : a ∈ findAll r before skip t) :
    ∃ b u rest, r b u = some (a, rest) := by
  induction t generalizing before skip with
  | nil => simp [findAll] at h
  | cons c t ih =>
    cases skip with
    | succ n => exact ih h
    | zero =>
      rw [findAll] at h
      split at h
      · next a' rest hread =>
        rcases List.mem_cons.mp h with rfl | h
        · exact ⟨before, c :: t, rest, hread⟩
        · exact ih h
      · exact ih h

theorem exists_mem_of_firstM {β : Type} {f : α → Option β} {as : List α} {b : β} (h : as.firstM f = some b) :
    ∃ a ∈ as, f a = some b := by
  induction as with
  | nil => cases h
  | cons a as ih =>
    rw [List.firstM] at h
    rcases orElse_eq_some_iff.mp h with h | ⟨-, h⟩
    · exact ⟨a, List.mem_cons_self, h⟩
    · obtain ⟨b, hb, h⟩ := ih h
      exact ⟨b, List.mem_cons_of_mem a hb, h⟩

theorem exists_word_of_oneOf? {words : List (Text × α)} {rest : Text} {a : α} (h : oneOf? words t = some (a, rest)) :
    ∃ w, (w, a) ∈ words ∧ t = w ++ rest := by
  obtain ⟨⟨w, b⟩, hmem, hword⟩ := exists_mem_of_firstM h
  obtain ⟨u, hlead, heq⟩ := Option.map_eq_some_iff.mp hword
  cases heq
  exact ⟨w, hmem, dropLead?_eq_some_iff.mp hlead⟩

/-! ### Words and blanks -/

/-- `w` is made of word characters, of at least one. -/
def IsWord (w : Text) : Prop := w ≠ [] ∧ ∀ c ∈ w, isWordChar c = true

theorem eq_of_word? {w rest : Text} (h : word? t = some (w, rest)) : IsWord w ∧ t = w ++ rest := by
  unfold word? at h
  split at h
  · cases h
  · next hne =>
    cases h
    exact ⟨⟨hne, fun c hc => List.mem_takeWhile_imp hc⟩, List.takeWhile_append_dropWhile.symm⟩

theorem IsWord.exists_word? {w : Text} (h : IsWord w) (t : Text) : ∃ w' rest, word? (w ++ t) = some (w', rest) := by
  obtain ⟨c, w, rfl⟩ := List.exists_cons_of_ne_nil h.1
  rw [List.cons_append, word?, List.takeWhile_cons_of_pos (h.2 c List.mem_cons_self)]
  exact ⟨_, _, rfl⟩

theorem endsWord_of_word? {w rest : Text} (h : word? t = some (w, rest)) : endsWord rest = true := by
  unfold word? at h
  split at h
  · cases h
  · cases h
    rw [endsWord]
    cases hd : (t.dropWhile isWordChar).head? with
    | none => rfl
    | some c =>
      rw [Option.any_some, eq_false_of_mem_head?_dropWhile hd]
      rfl

theorem eq_of_blanks? {rest : Text} (h : blanks? t = some rest) :
    ∃ blanks, t = blanks ++ rest ∧ blanks ≠ [] ∧ ∀ c ∈ blanks, isBlank c = true := by
  cases t with
  | nil => cases h
  | cons c t =>
    rw [blanks?] at h
    split at h
    · next hc =>
      cases h
      refine ⟨c :: t.takeWhile isBlank, ?_, List.cons_ne_nil _ _, fun d hd => ?_⟩
      · rw [List.cons_append, trimStart, List.takeWhile_append_dropWhile]
      · rcases List.mem_cons.mp hd with rfl | hd
        · exact hc
        · exact List.mem_takeWhile_imp hd
    · cases h

theorem blanks?_append {blanks : Text} (hne : blanks ≠ []) (h : ∀ c ∈ blanks, isBlank c = true)
    (ht : ∀ c ∈ t.head?, isBlank c = false) : blanks? (blanks ++ t) = some t := by
  have htrim : trimStart t = t := by
    cases t with
    | nil => rfl
    | cons c t => exact trimStart_cons_of_not_isBlank (ht c rfl) t
  cases blanks with
  | nil => exact absurd rfl hne
  | cons c blanks =>
    have hlater : trimStart (blanks ++ t) = t := by
      rw [trimStart, List.dropWhile_append_of_pos fun d hd => h d (List.mem_cons_of_mem _ hd)]
      exact htrim
    rw [List.cons_append, blanks?, if_pos (h c List.mem_cons_self), hlater]

theorem word?_append {w : Text} (hne : w ≠ []) (h : ∀ c ∈ w, isWordChar c = true) (ht : endsWord t = true) :
    word? (w ++ t) = some (w, t) := by
  have hstop : ∀ c ∈ t.head?, isWordChar c = false := by
    intro c hc
    rw [endsWord, Option.mem_def.mp hc] at ht
    exact Bool.not_eq_true' _ |>.mp ht
  obtain ⟨htake, hdrop⟩ := takeWhile_append_of_ends h hstop
  rw [word?, htake, hdrop]
  cases w with
  | nil => exact absurd rfl hne
  | cons c w => rfl

/-! ### Quoted texts -/

theorem anyQuoted?_append (h : '\'' ∉ s) (t : Text) : anyQuoted? ('\'' :: (s ++ '\'' :: t)) = some (s, t) :=
  upTo?_eq_some_iff.mpr ⟨rfl, h⟩

theorem anyQuoted?_of_not_mem (h : '\'' ∉ t) : anyQuoted? ('\'' :: t) = none := by
  rw [Option.eq_none_iff_forall_ne_some]
  rintro ⟨s, rest⟩ hs
  have hsplit : upTo? '\'' t = some (s, rest) := hs
  rw [upTo?_eq_some_iff] at hsplit
  exact h (by simp [hsplit.1])

theorem anyQuoted?_cons_of_ne {c : Char} (h : c ≠ '\'') (h' : c ≠ '"') (t : Text) : anyQuoted? (c :: t) = none := by
  unfold anyQuoted?
  split
  · next heq => exact absurd (List.cons.inj heq).1 h
  · next heq => exact absurd (List.cons.inj heq).1 h'
  · rfl

end EndpointAtlas.Text
