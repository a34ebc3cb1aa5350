import EndpointAtlas.Proofs.Text.First

/-! Patterns that can be read in several ways. Where a part of a pattern may take more or less of a text, all its ways
    are listed in the order in which they are tried, and a search goes back to the next way when the parts behind find
    nothing to read. This file says where going back is in vain: such a pattern is read part by part, and each part is
    taken where it stands first. -/

namespace EndpointAtlas.Text

/-- The ways to read a pattern at the beginning of a text, the one that is tried first in front. A way is told by what
    it reads and what follows. -/
abbrev Ways (α : Type) := Text → List (α × Text)

namespace Ways
variable {α β γ : Type}

instance : Monad Ways where
  pure a := fun t => [(a, t)]
  bind w f := fun t => (w t).flatMap fun x => f x.1 x.2

/-- The text `s`. -/
def lead (s : Text) : Ways Unit := fun t => ((dropLead? s t).map ((), ·)).toList

/-- Any number of characters with the property `p`, rather more than fewer. -/
def many (p : Char → Bool) : Ways Text
  | [] => [([], [])]
  | c :: t => (if p c then (many p t).map fun x => (c :: x.1, x.2) else []) ++ [([], c :: t)]

/-- One or more characters with the property `p`, rather more than fewer. -/
def many₁ (p : Char → Bool) : Ways Text
  | [] => []
  | c :: t => if p c then (many p t).map fun x => (c :: x.1, x.2) else []

/-- Any characters, rather fewer than more. -/
def gap : Ways Unit
  | [] => [((), [])]
  | c :: t => ((), c :: t) :: gap t

/-- The ways of `w`, and then those of `w'`. -/
def orElse (w w' : Ways α) : Ways α := fun t => w t ++ w' t

/-- What `content` reads between two `q`. -/
def quoted (q : Char) (content : Ways Text) : Ways Text := do
  lead [q]
  let s ← content
  lead [q]
  return s

/-- What `w` reads behind the text `s` and blanks. -/
def behind (s : Text) (w : Ways α) : Ways α := do
  lead s
  let _ ← many isBlank
  w

/-- What `w` reads and, behind any gap, what `w'` reads. -/
def inOrder (w : Ways α) (w' : Ways β) : Ways (α × β) := do
  let a ← w
  gap
  let b ← w'
  return (a, b)

/-- A search tries each way of the pattern at one place before it goes on to the next place. -/
def reader (w : Ways α) : Reader α := fun _ t => (w t).head?

/-! ### Parts that have one way -/

variable {p : Char → Bool} {q c : Char} {t : Text} {w : Ways α}

/-- Fewer characters are in vain where what follows cannot begin with one of them. -/
theorem flatMap_many (f : Text × Text → List γ) (h : ∀ s c u, p c = true → f (s, c :: u) = []) (t : Text) :
    (many p t).flatMap f = f (t.takeWhile p, t.dropWhile p) := by
  induction t generalizing f with
  | nil => exact List.append_nil _
  | cons c t ih =>
    by_cases hc : p c = true
    · rw [many, if_pos hc, List.flatMap_append, List.flatMap_map, ih _ fun s d u hd => h (c :: s) d u hd,
        List.takeWhile_cons_of_pos hc, List.dropWhile_cons_of_pos hc]
      simp [h [] c t hc]
    · rw [many, if_neg hc, List.takeWhile_cons_of_neg hc, List.dropWhile_cons_of_neg hc]
      exact List.append_nil _

theorem flatMap_many₁ (f : Text × Text → List γ) (h : ∀ s c u, p c = true → f (s, c :: u) = []) (t : Text) :
    (many₁ p t).flatMap f = if (t.takeWhile p).isEmpty then [] else f (t.takeWhile p, t.dropWhile p) := by
  cases t with
  | nil => rfl
  | cons c t =>
    by_cases hc : p c = true
    · rw [many₁, if_pos hc, List.flatMap_map, flatMap_many _ fun s d u hd => h (c :: s) d u hd,
        List.takeWhile_cons_of_pos hc, List.dropWhile_cons_of_pos hc]
      rfl
    · rw [many₁, if_neg hc, List.takeWhile_cons_of_neg hc]
      rfl

theorem head?_many (p : Char → Bool) (t : Text) : (many p t).head? = some (t.takeWhile p, t.dropWhile p) := by
  induction t with
  | nil => rfl
  | cons c t ih =>
    by_cases hc : p c = true
    · rw [many, if_pos hc, List.head?_append, List.head?_map, ih, List.takeWhile_cons_of_pos hc,
        List.dropWhile_cons_of_pos hc]
      rfl
    · rw [many, if_neg hc, List.takeWhile_cons_of_neg hc, List.dropWhile_cons_of_neg hc]
      rfl

theorem head?_many₁_isWordChar (t : Text) : (many₁ isWordChar t).head? = word? t := by
  cases t with
  | nil => rfl
  | cons c t =>
    by_cases hc : isWordChar c = true
    · rw [many₁, if_pos hc, List.head?_map, head?_many, word?, List.takeWhile_cons_of_pos hc,
        List.dropWhile_cons_of_pos hc]
      rfl
    · rw [many₁, if_neg hc, word?, List.takeWhile_cons_of_neg hc]
      rfl

theorem upTo?_eq (q : Char) (t : Text) :
    upTo? q t = (dropLead? [q] (t.dropWhile (· != q))).map (t.takeWhile (· != q), ·) := by
  induction t with
  | nil => rfl
  | cons c t ih =>
    by_cases hc : c = q
    · subst hc
      simp [upTo?, dropLead?]
    · have hne : (c != q) = true := bne_iff_ne.mpr hc
      rw [upTo?, if_neg hc, ih, List.takeWhile_cons_of_pos (p := (· != q)) hne,
        List.dropWhile_cons_of_pos (p := (· != q)) hne, Option.map_map]
      rfl

theorem quoted_apply (q : Char) (content : Ways Text) (t : Text) : quoted q content t =
    (dropLead? [q] t).toList.flatMap fun u =>
      (content u).flatMap fun x => ((dropLead? [q] x.2).map (x.1, ·)).toList := by
  show (lead [q] t).flatMap (fun x => (content x.2).flatMap fun y => (lead [q] y.2).flatMap fun z => [(y.1, z.2)]) = _
  simp only [lead, Option.toList_map, List.flatMap_map, ← List.map_eq_flatMap]

/-- What is quoted cannot end before its quote. -/
theorem toList_closing_of_ne (s u : Text) (h : (c != q) = true) :
    ((dropLead? [q] (c :: u)).map (s, ·)).toList = [] := by
  rw [dropLead?, if_neg (Ne.symm (bne_iff_ne.mp h))]
  rfl

theorem quoted_many (q : Char) (t : Text) : quoted q (many (· != q)) t = (quoted? q t).toList := by
  rw [quoted_apply, quoted?]
  cases dropLead? [q] t with
  | none => rfl
  | some u =>
    show (many (· != q) u).flatMap _ ++ [] = (upTo? q u).toList
    rw [List.append_nil, flatMap_many _ fun s c u hc => toList_closing_of_ne s u hc, upTo?_eq]

theorem quoted_many₁ (q : Char) (t : Text) : quoted q (many₁ (· != q)) t = (quoted? q t >>= nonempty?).toList := by
  rw [quoted_apply, quoted?]
  cases dropLead? [q] t with
  | none => rfl
  | some u =>
    show (many₁ (· != q) u).flatMap _ ++ [] = (upTo? q u >>= nonempty?).toList
    rw [List.append_nil, flatMap_many₁ _ fun s c u hc => toList_closing_of_ne s u hc, upTo?_eq]
    cases dropLead? [q] (u.dropWhile (· != q)) with
    | none => exact ite_self []
    | some rest =>
      show _ = (nonempty? (u.takeWhile (· != q), rest)).toList
      rw [nonempty?]
      split <;> rfl

theorem behind_apply (s : Text) (h : ∀ c u, isBlank c = true → w (c :: u) = []) (t : Text) :
    behind s w t = (dropLead? s t).toList.flatMap fun u => w (trimStart u) := by
  show (lead s t).flatMap (fun x => (many isBlank x.2).flatMap fun y => w y.2) = _
  simp only [flatMap_many (fun y => w y.2) fun _ c u hc => h c u hc, lead, Option.toList_map, List.flatMap_map]
  rfl

theorem behind_eq_toList {f : Text → Option (α × Text)} (hw : ∀ t, w t = (f t).toList)
    (hf : ∀ c t, isBlank c = true → f (c :: t) = none) (s t : Text) :
    behind s w t = ((dropLead? s t).bind fun u => f (trimStart u)).toList := by
  rw [behind_apply s fun c u hc => by rw [hw, hf c u hc]; rfl]
  cases dropLead? s t with
  | none => rfl
  | some u => rw [Option.toList_some, List.flatMap_singleton, hw, Option.bind_some]

/-! ### Parts that are taken where they stand first -/

variable {r : Reader α} {before : Option Char}

theorem reader_bind (h : ∀ before t, w t = (r before t).toList) (f : α → Ways β) (before : Option Char) (t : Text) :
    (w >>= f).reader before t = r before t >>= fun x => (f x.1).reader none x.2 := by
  show ((w t).flatMap fun x => f x.1 x.2).head? = _
  rw [h before]
  cases r before t with
  | none => rfl
  | some x => rw [Option.toList_some, List.flatMap_singleton]; rfl

/-- Behind a gap, what follows is looked for from place to place. -/
theorem reader_gap_bind (w : Ways α) (before : Option Char) (t : Text) :
    (gap >>= fun _ => w).reader before t = find? w.reader before t := by
  induction t generalizing before with
  | nil =>
    show ((w []) ++ []).head? = _
    rw [List.append_nil]
    rfl
  | cons c t ih =>
    show (w (c :: t) ++ (gap t).flatMap fun x => w x.2).head? = _
    have hlater : ((gap t).flatMap fun x => w x.2).head? = find? w.reader (some c) t := ih (some c)
    rw [List.head?_append, hlater, find?, reader]
    cases (w (c :: t)).head? <;> rfl

end Ways

variable {α β : Type} {r : Reader α} {before : Option Char} {t : Text}

/-- Of two readings, the one that begins later in the text ends later. -/
def EndsLater (r : Reader α) : Prop := ∀ before before' u v x y, r before u = some x → v <:+ u →
  r before' v = some y → y.2 <:+ x.2

theorem find?_eq_none_of_suffix (h : ∀ before before' u, r before u = r before' u) {t' : Text} (hsuffix : t' <:+ t)
    (hnone : find? r before t = none) (before' : Option Char) : find? r before' t' = none := by
  obtain ⟨s, rfl⟩ := hsuffix
  rw [find?_eq_none_iff] at hnone ⊢
  rintro s' u rfl
  rw [h _ ((s ++ s').getLast?.or before)]
  exact hnone (s ++ s') u (List.append_assoc s s' u).symm

/-- The first reading is kept: what is not found behind it is not found behind a later one either. -/
theorem find?_bind (hr : EndsLater r) {k : α × Text → Option (β × Text)}
    (hk : ∀ x y, y.2 <:+ x.2 → k x = none → k y = none) (before : Option Char) (t : Text) :
    find? (fun before u => r before u >>= k) before t = find? r before t >>= k := by
  induction t generalizing before with
  | nil => rfl
  | cons c t ih =>
    rw [find?, find?]
    cases hread : r before (c :: t) with
    | none => exact ih (some c)
    | some x =>
      cases hx : k x with
      | some z => simp [hx]
      | none =>
        have hlater : find? (fun before u => r before u >>= k) (some c) t = none := by
          rw [find?_eq_none_iff]
          rintro s u rfl
          rw [Option.bind_eq_bind, Option.bind_eq_none_iff]
          exact fun y hy => hk x y (hr _ _ _ _ _ _ hread ((List.suffix_append s u).trans (List.suffix_cons c _)) hy) hx
        simp only [Option.bind_eq_bind, Option.bind_some, hx]
        exact hlater

theorem find?_map (f : α × Text → β × Text) (before : Option Char) (t : Text) :
    find? (fun before u => (r before u).map f) before t = (find? r before t).map f := by
  induction t generalizing before with
  | nil => rfl
  | cons c t ih =>
    rw [find?, find?]
    cases r before (c :: t) with
    | none => exact ih (some c)
    | some x => rfl

/-- Two parts with a gap between them are found one behind the other, each where it stands first. -/
theorem find?_inOrder {w : Ways α} (hw : ∀ before t, w t = (r before t).toList) (hr : EndsLater r) (w' : Ways β)
    (before : Option Char) (t : Text) : find? (w.inOrder w').reader before t =
      find? r before t >>= fun x => (find? w'.reader none x.2).map fun y => ((x.1, y.1), y.2) := by
  have hreader : (w.inOrder w').reader = fun before u => r before u >>= fun x =>
      (find? w'.reader none x.2).map fun y => ((x.1, y.1), y.2) := by
    funext before u
    rw [Ways.inOrder, Ways.reader_bind hw]
    refine congrArg (r before u >>= ·) (funext fun x => ?_)
    have hpair : (w' >>= fun b => pure (x.1, b)).reader = fun before u =>
        (w'.reader before u).map fun y => ((x.1, y.1), y.2) := by
      funext before u
      show ((w' u).flatMap fun y => [((x.1, y.1), y.2)]).head? = _
      rw [← List.map_eq_flatMap, List.head?_map]
      rfl
    rw [Ways.reader_gap_bind, hpair, find?_map]
  rw [hreader]
  refine find?_bind hr (fun x y hsuffix hnone => ?_) before t
  rw [Option.map_eq_none_iff] at hnone ⊢
  exact find?_eq_none_of_suffix (fun _ _ _ => rfl) hsuffix hnone none

/-- A marker and a quoted text hold two quotes, and so do not begin within each other and end in disorder. -/
theorem endsLater_of_quoted {r : Reader Text} {marker : Text} {q : Char} (hmarker : q ∉ marker) (hq : isBlank q = false)
    (h : ∀ before t s rest, r before t = some (s, rest) → Behind marker (Quoted q) s t rest) : EndsLater r := by
  have hcount : ∀ {before t x}, r before t = some x → ∃ p, t = p ++ q :: x.2 ∧ p.count q = 1 := by
    rintro before t ⟨s, rest⟩ hread
    obtain ⟨blanks, u, rfl, hblanks, rfl, hs⟩ := h _ _ _ _ hread
    have hblanks' : q ∉ blanks := fun hmem => Bool.false_ne_true (hq.symm.trans (hblanks q hmem))
    refine ⟨marker ++ (blanks ++ q :: s), by simp, ?_⟩
    rw [List.count_append, List.count_append, List.count_cons_self, List.count_eq_zero_of_not_mem hmarker,
      List.count_eq_zero_of_not_mem hblanks', List.count_eq_zero_of_not_mem hs]
  rintro before before' u v x y hx ⟨k, rfl⟩ hy
  obtain ⟨p, hp, hone⟩ := hcount hx
  obtain ⟨p', rfl, hone'⟩ := hcount hy
  rw [← List.append_assoc] at hp
  rcases List.append_eq_append_iff.mp hp with ⟨z, rfl, hz⟩ | ⟨z, -, hz⟩
  · cases z with
    | nil => exact (List.cons.inj hz).2 ▸ List.suffix_refl _
    | cons c z =>
      -- Here the earlier text would hold a quote more.
      rw [← (List.cons.inj hz).1, List.count_append, List.count_append, List.count_cons_self] at hone
      omega
  · cases z with
    | nil => exact (List.cons.inj hz).2 ▸ List.suffix_refl _
    | cons c z => exact ⟨z ++ [q], by simpa using (List.cons.inj hz).2.symm⟩

end EndpointAtlas.Text
