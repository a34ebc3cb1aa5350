import EndpointAtlas.Proofs.Text.Find

/-! The first place of a text at which a pattern stands. A pattern is told here by what it reads and what follows, and
    not by the way in which it is read, so that a search can be compared with what it looks for. -/

namespace EndpointAtlas.Text

/-- What can be read at the beginning of a text, and what follows it there. -/
abbrev Pattern (α : Type) := α → Text → Text → Prop

/-- `a` is read at the first place of `t` where the pattern stands, and `rest` follows. -/
def ReadsFirst {α : Type} (P : Pattern α) (t : Text) (a : α) (rest : Text) : Prop := ∃ s u, t = s ++ u ∧ P a u rest ∧
  ∀ s' u' a' rest', t = s' ++ u' → P a' u' rest' → s.length ≤ s'.length

/-- `r` reads the pattern, whatever stands before the place. -/
def Reads {α : Type} (r : Reader α) (P : Pattern α) : Prop :=
  ∀ {before u a rest}, r before u = some (a, rest) ↔ P a u rest

variable {α : Type} {r : Reader α} {P : Pattern α} {before : Option Char} {t rest : Text} {a : α}

namespace Reads

theorem find?_eq_some_iff (h : Reads r P) : find? r before t = some (a, rest) ↔ ReadsFirst P t a rest := by
  rw [Text.find?_eq_some_iff]
  constructor
  · rintro ⟨s, u, rfl, hmisses, hread⟩
    refine ⟨s, u, rfl, h.mp hread, fun s' u' a' rest' hsplit hplace => ?_⟩
    rcases List.append_eq_append_iff.mp hsplit with ⟨x, rfl, -⟩ | ⟨x, rfl, rfl⟩
    · exact (List.prefix_append s x).length_le
    · cases x with
      | nil => rw [List.append_nil]
      | cons c x =>
        have hread' := (@h (s'.getLast?.or before) _ _ _).mpr hplace
        rw [List.cons_append, hmisses.eq_none] at hread'
        cases hread'
  · rintro ⟨s, u, rfl, hplace, hfirst⟩
    refine ⟨s, u, rfl, misses_of_split fun v c w hsplit => ?_, h.mpr hplace⟩
    rw [Option.eq_none_iff_forall_ne_some]
    rintro ⟨a', rest'⟩ hread
    have hle := hfirst v (c :: (w ++ u)) a' rest' (by simp [hsplit]) (h.mp hread)
    rw [hsplit, List.length_append, List.length_cons] at hle
    omega

theorem first?_eq_some_iff (h : Reads r P) : first? r t = some a ↔ ∃ rest, ReadsFirst P t a rest := by
  simp only [first?, Option.map_eq_some_iff, Prod.exists, exists_and_right, exists_eq_right, h.find?_eq_some_iff]

theorem find?_eq_none_iff (h : Reads r P) : find? r before t = none ↔ ∀ a rest, ¬ ReadsFirst P t a rest := by
  simp only [Option.eq_none_iff_forall_ne_some, Prod.forall, ne_eq, h.find?_eq_some_iff]

/-- Where a pattern stands at all, it stands somewhere first. -/
theorem exists_readsFirst (h : Reads r P) {s u : Text} (hplace : P a u rest) :
    ∃ a' rest', ReadsFirst P (s ++ u) a' rest' := by
  by_contra hnone
  have hfind : find? r none (s ++ u) = none :=
    h.find?_eq_none_iff.mpr fun a' rest' hfirst => hnone ⟨a', rest', hfirst⟩
  have hread := Text.find?_eq_none_iff.mp hfind s u rfl
  rw [h.mpr hplace] at hread
  cases hread

theorem eq_of_place (h : Reads r P) {u rest' : Text} {a' : α} (hplace : P a u rest) (hplace' : P a' u rest') :
    a = a' ∧ rest = rest' := by
  have hread := (@h none _ _ _).mpr hplace
  rw [h.mpr hplace'] at hread
  cases hread
  exact ⟨rfl, rfl⟩

end Reads

/-! ### Parts of patterns -/

/-- Behind the text `marker` and blanks stands `P`. -/
def Behind {α : Type} (marker : Text) (P : Pattern α) : Pattern α := fun a t rest =>
  ∃ blanks u, t = marker ++ (blanks ++ u) ∧ (∀ c ∈ blanks, isBlank c = true) ∧ P a u rest

/-- A text without `q` between two `q`. -/
def Quoted (q : Char) : Pattern Text := fun s t rest => t = q :: (s ++ q :: rest) ∧ q ∉ s

variable {s u marker : Text} {q : Char}

theorem behind_iff {f : Text → Option (α × Text)} (hblank : ∀ c x, isBlank c = true → f (c :: x) = none)
    (hf : ∀ t a rest, f t = some (a, rest) ↔ P a t rest) :
    ((dropLead? marker t).bind fun u => f (trimStart u)) = some (a, rest) ↔ Behind marker P a t rest := by
  rw [Option.bind_eq_some_iff]
  constructor
  · rintro ⟨u, hlead, hread⟩
    refine ⟨u.takeWhile isBlank, trimStart u, ?_, fun c hc => List.mem_takeWhile_imp hc, (hf _ _ _).mp hread⟩
    rw [trimStart, List.takeWhile_append_dropWhile]
    exact dropLead?_eq_some_iff.mp hlead
  · rintro ⟨blanks, x, rfl, hblanks, hplace⟩
    refine ⟨blanks ++ x, dropLead?_eq_some_iff.mpr rfl, ?_⟩
    have hread := (hf _ _ _).mpr hplace
    have hhead : ∀ c ∈ x.head?, isBlank c = false := by
      cases x with
      | nil => exact fun c hc => absurd hc (Option.not_mem_none c)
      | cons c x =>
        rintro _ ⟨⟩
        rw [Bool.eq_false_iff]
        intro hc
        rw [hblank c x hc] at hread
        cases hread
    rw [trimStart_append_of_isBlank hblanks hhead, hread]

theorem quoted?_eq_some_iff : quoted? q t = some (s, rest) ↔ Quoted q s t rest := by
  rw [quoted?, Option.bind_eq_bind, Option.bind_eq_some_iff]
  simp only [dropLead?_eq_some_iff, upTo?_eq_some_iff]
  constructor
  · rintro ⟨t, rfl, rfl, hq⟩
    exact ⟨rfl, hq⟩
  · rintro ⟨rfl, hq⟩
    exact ⟨_, rfl, rfl, hq⟩

theorem dropLead?_cons_of_isBlank {c : Char} (hq : isBlank q = false) (hc : isBlank c = true) (s t : Text) :
    dropLead? (q :: s) (c :: t) = none := by
  rw [dropLead?, if_neg]
  rintro rfl
  rw [hq] at hc
  cases hc

theorem quoted?_cons_of_isBlank {c : Char} (hq : isBlank q = false) (hc : isBlank c = true) (t : Text) :
    quoted? q (c :: t) = none := by
  rw [quoted?, dropLead?_cons_of_isBlank hq hc]
  rfl

theorem anyQuoted?_eq_some_iff : anyQuoted? t = some (s, rest) ↔
    Quoted '"' s t rest ∨ Quoted '\'' s t rest := by
  constructor
  · intro h
    unfold anyQuoted? at h
    split at h
    · obtain ⟨rfl, hq⟩ := upTo?_eq_some_iff.mp h
      exact Or.inr ⟨rfl, hq⟩
    · obtain ⟨rfl, hq⟩ := upTo?_eq_some_iff.mp h
      exact Or.inl ⟨rfl, hq⟩
    · cases h
  · rintro (⟨rfl, hq⟩ | ⟨rfl, hq⟩)
    · exact upTo?_eq_some_iff.mpr ⟨rfl, hq⟩
    · exact upTo?_eq_some_iff.mpr ⟨rfl, hq⟩

theorem bind_nonempty?_eq_some_iff {found : Option (Text × Text)} :
    (found >>= nonempty?) = some (s, rest) ↔ found = some (s, rest) ∧ s ≠ [] := by
  rw [Option.bind_eq_bind, Option.bind_eq_some_iff]
  constructor
  · rintro ⟨x, rfl, hx⟩
    rw [nonempty?] at hx
    split at hx
    · cases hx
    · next hne =>
      cases hx
      exact ⟨rfl, fun hnil => hne (List.isEmpty_iff.mpr hnil)⟩
  · rintro ⟨rfl, hne⟩
    exact ⟨_, rfl, if_neg fun hempty => hne (List.isEmpty_iff.mp hempty)⟩

theorem word?_eq_some_iff : word? t = some (s, rest) ↔ IsWord s ∧ endsWord rest = true ∧ t = s ++ rest := by
  constructor
  · intro h
    exact ⟨(eq_of_word? h).1, endsWord_of_word? h, (eq_of_word? h).2⟩
  · rintro ⟨hword, hend, rfl⟩
    exact word?_append hword.1 hword.2 hend

end EndpointAtlas.Text
