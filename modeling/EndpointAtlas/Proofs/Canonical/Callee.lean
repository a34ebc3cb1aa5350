import EndpointAtlas.Proofs.Canonical.Fields

/-! The backend routine that a canonical declaration calls. The version is that of the client which the handler
    makes, since no hook stands in the file, and the routine is the one called on that client. -/

namespace EndpointAtlas.Canonical
open Text

/-! ### Versioned paths -/

theorem readModule?_of_isCapital {c : Char} {s : Text} (hc : isCapital c = true)
    (hs : ∀ d ∈ c :: s, isIdentChar d = true) (t : Text) :
    Endpoint.readModule? (c :: s ++ ("::" ++ t)) = some (c :: s, t) := by
  have hword : word? (c :: s ++ ("::" ++ t)) = some (c :: s, "::" ++ t) :=
    word?_append_of_isIdentChar (List.cons_ne_nil c s) hs rfl
  have hcolons : dropLead? "::" ("::" ++ t) = some t := rfl
  unfold Endpoint.readModule?
  rw [hword]
  simp only [List.cons_append, List.head?_cons, Option.bind_eq_bind, Option.bind_some, hc, hcolons, Bool.not_true,
    Bool.false_eq_true, if_false]
  rfl

/-- A name that no colons follow is no module. -/
theorem readModule?_of_paren {w : Text} (hne : w ≠ []) (hw : ∀ d ∈ w, isIdentChar d = true) (t : Text) :
    Endpoint.readModule? (w ++ ')' :: t) = none := by
  have hword : word? (w ++ ')' :: t) = some (w, ')' :: t) :=
    word?_append_of_isIdentChar hne hw rfl
  have hcolons : dropLead? "::" (')' :: t) = none := rfl
  obtain ⟨c, s, rfl⟩ := List.exists_cons_of_ne_nil hne
  unfold Endpoint.readModule?
  rw [hword]
  simp only [List.cons_append, List.head?_cons, Option.bind_eq_bind, Option.bind_some, hcolons, Option.bind_none]
  split <;> rfl

theorem VersionName.isVersion (v : VersionName) : Endpoint.isVersion v.text = true := by
  have hdigits : List.all v.digits isDigitChar = true := by
    rw [List.all_eq_true]
    intro c hc
    rw [isDigitChar, v.chars c hc]
    rfl
  have hne : v.digits.isEmpty = false := by simpa using v.ne_nil
  show (!v.digits.isEmpty && List.all v.digits isDigitChar) = true
  rw [hne, hdigits]
  rfl

theorem modulePath_cons (m : ModuleName) (ms : List ModuleName) (t : Text) :
    modulePath (m :: ms) ++ t = m.first :: m.rest ++ ("::" ++ (modulePath ms ++ t)) := by
  rw [modulePath, List.flatMap_cons, List.append_assoc, List.append_assoc]
  rfl

/-- What follows the modules of a path: a version, and a class before a closing parenthesis. -/
def pathEnd (v : VersionName) (name : ModuleName) (t : Text) : Text :=
  v.text ++ ("::" ++ (name.text ++ ')' :: t))

theorem lastVersion?_path (v : VersionName) (name : ModuleName) (t : Text) {ms : List ModuleName} {fuel : Nat}
    (h : ms.length < fuel) : Endpoint.lastVersion? fuel (modulePath ms ++ pathEnd v name t) =
      some (v.text, name.text ++ ')' :: t) := by
  induction ms generalizing fuel with
  | nil =>
    obtain ⟨fuel, rfl⟩ : ∃ n, fuel = n + 1 := ⟨fuel - 1, by simp at h; omega⟩
    have hread : Endpoint.readModule? (v.text ++ ("::" ++ (name.text ++ ')' :: t))) =
        some (v.text, name.text ++ ')' :: t) := readModule?_of_isCapital rfl v.chars_text _
    -- A parenthesis follows the class, so no module is read behind the version.
    have hlater : Endpoint.lastVersion? fuel (name.text ++ ')' :: t) = none := by
      cases fuel with
      | zero => rfl
      | succ fuel =>
        rw [Endpoint.lastVersion?, readModule?_of_paren (w := name.text) (List.cons_ne_nil _ _) name.chars_text]
        rfl
    show Endpoint.lastVersion? (fuel + 1) (v.text ++ ("::" ++ (name.text ++ ')' :: t))) = _
    rw [Endpoint.lastVersion?, hread]
    simp only [Option.bind_eq_bind, Option.bind_some, hlater, v.isVersion, if_true]
    rfl
  | cons m ms ih =>
    obtain ⟨fuel, rfl⟩ : ∃ n, fuel = n + 1 := ⟨fuel - 1, by simp at h; omega⟩
    -- `m` may look like a version: the one read behind it is preferred.
    have hlater := ih (Nat.lt_of_succ_lt_succ h)
    rw [modulePath_cons, Endpoint.lastVersion?, readModule?_of_isCapital m.capital m.chars_text]
    simp only [Option.bind_eq_bind, Option.bind_some, hlater]
    rfl

theorem length_le_length_modulePath (ms : List ModuleName) : ms.length ≤ (modulePath ms).length := by
  induction ms with
  | nil => exact Nat.le_refl _
  | cons m ms ih =>
    rw [← List.append_nil (modulePath (m :: ms)), modulePath_cons, List.append_nil]
    simp only [List.length_cons, List.length_append]
    omega

theorem ClientClass.readVersionedPath?_text (k : ClientClass) (t : Text) :
    Endpoint.readVersionedPath? (k.text ++ ')' :: t) = some (k.version.text, k.name.text ++ ')' :: t) := by
  have hsplit : k.text ++ ')' :: t =
      k.outer.first :: k.outer.rest ++ ("::" ++ (modulePath k.inner ++ pathEnd k.version k.name t)) := by
    rw [← modulePath_cons, ClientClass.text, pathEnd]
    simp only [List.append_assoc]
  have hfuel : k.inner.length < (modulePath k.inner ++ pathEnd k.version k.name t).length := by
    have hle := length_le_length_modulePath k.inner
    have hpos : 0 < (pathEnd k.version k.name t).length := Nat.succ_pos _
    rw [List.length_append]
    omega
  unfold Endpoint.readVersionedPath?
  rw [hsplit, readModule?_of_isCapital k.outer.capital k.outer.chars_text]
  exact lastVersion?_path k.version k.name t hfuel

/-! ### The client -/

namespace Declaration
variable (d : Declaration)

/-- What stands before the making of the client. -/
def clientLead : Text :=
  d.titleContent ++ onNewLines (d.headerLines ++ d.paramsLines ++
    [indented (d.indent 6) d.verbContent, indented (d.indent 7) "client = "])

/-- What stands behind it up to the call. -/
def callLead : Text := d.clientLead ++ ("create_client(" ++ (d.client.text ++ ')' ::
  ('\n' :: List.replicate (d.indent 8) ' ')))

theorem text_eq_append_client : d.text = d.clientLead ++ ("create_client" ++ '(' :: (d.client.text ++ ')' ::
    onNewLines [indented (d.indent 8) d.callContent, indented (d.indent 9) "end"])) := by
  unfold text clientLead handlerLines clientContent
  simp only [onNewLines_append, onNewLines_cons, onNewLines_nil, indented, List.append_assoc, List.cons_append,
    List.append_nil]
  rfl

theorem text_eq_append_call : d.text = d.callLead ++ ("client" ++ '.' :: (d.call.text ++ ("(params)" ++
    onNewLines [indented (d.indent 9) "end"]))) := by
  rw [text_eq_append_client]
  unfold callLead callContent
  simp only [onNewLines_cons, onNewLines_nil, indented, List.append_assoc, List.cons_append, List.append_nil]
  rfl

theorem isOver_clientLead : IsOver "\n',:=>\x7b\x7d" d.clientLead := by
  have hlines : ∀ l ∈ d.headerLines ++ d.paramsLines ++
      [indented (d.indent 6) d.verbContent, indented (d.indent 7) "client = "], IsOver "',:=>\x7b\x7d" l := by
    have hhandler : ∀ l ∈ [indented (d.indent 6) d.verbContent, indented (d.indent 7) "client = "],
        IsOver "',:=>\x7b\x7d" l := by
      intro l hl
      simp only [List.mem_cons, List.not_mem_nil, or_false] at hl
      rcases hl with rfl | rfl
      · exact (d.isOver_verbContent.mono (by decide)).indented _
      · exact .indented _ (by decide)
    exact List.forall_mem_append.mpr ⟨List.forall_mem_append.mpr ⟨d.isOver_headerLines,
      fun l hl => (d.isOver_paramsLines l hl).mono (by decide)⟩, hhandler⟩
  exact (d.isOver_titleContent.mono (by decide)).append (IsOver.onNewLines hlines)

theorem isOver_callLead : IsOver "\n',:=>\x7b\x7d()" d.callLead := by
  have hclient : IsOver "\n',:=>\x7b\x7d()" ("create_client(" ++ (d.client.text ++ ')' ::
      ('\n' :: List.replicate (d.indent 8) ' '))) := by
    refine .append (by decide) ((d.client.isOver.mono (by decide)).append ?_)
    exact IsOver.append (s := [')', '\n']) (by decide) (isOver_replicate_space _)
  exact (d.isOver_clientLead.mono (by decide)).append hclient

theorem first?_readCreateClient : first? Endpoint.readCreateClient? d.text = some d.client.version.text := by
  -- No parenthesis stands before that of `create_client`.
  have hmisses : ∀ t, Misses Endpoint.readCreateClient? none d.clientLead ("create_client" ++ '(' :: t) := by
    intro t
    refine misses_of_marker (fun c hc b u x hx => ?_) (by decide)
      (d.isOver_clientLead.not_mem rfl rfl (by decide))
    unfold Endpoint.readCreateClient? at hx
    cases hlead : dropLead? "create_client(" (c :: u) with
    | none =>
      rw [hlead] at hx
      cases hx
    | some rest =>
      have hsplit : c :: u = "create_client(" ++ rest := dropLead?_eq_some_iff.mp hlead
      exact ⟨rest, hsplit⟩
  have hread : ∀ b t, Endpoint.readCreateClient? b ("create_client" ++ '(' :: (d.client.text ++ ')' :: t)) =
      some (d.client.version.text, d.client.name.text ++ ')' :: t) := by
    intro b t
    have hfirst : isBlank d.client.outer.first = false :=
      isBlank_of_isIdentChar (isIdentChar_of_isCapital d.client.outer.capital)
    have htrim : trimStart (d.client.text ++ ')' :: t) = d.client.text ++ ')' :: t :=
      trimStart_cons_of_not_isBlank hfirst _
    have hlead : dropLead? "create_client(" ("create_client" ++ '(' :: (d.client.text ++ ')' :: t)) =
        some (d.client.text ++ ')' :: t) := dropLead?_eq_some_iff.mpr rfl
    unfold Endpoint.readCreateClient?
    rw [hlead]
    simp only [Option.bind_eq_bind, Option.bind_some, htrim]
    exact d.client.readVersionedPath?_text t
  rw [text_eq_append_client]
  exact first?_append_of_eq_some (hmisses _) (hread _ _)

end Declaration

/-! ### The call -/

theorem readClientCall?_cons {before : Option Char} {c : Char} (hc : c ≠ '@')
    (hbefore : before.any (fun c => isWordChar c || c == '@') = false) (u : Text) :
    Endpoint.readClientCall? before (c :: u) = (dropLead? "client." (c :: u)).bind word? := by
  unfold Endpoint.readClientCall?
  split
  · next heq => exact absurd (List.cons.inj heq).1 hc
  · rw [hbefore]
    rfl

theorem eq_append_of_readClientCall? {before : Option Char} {c : Char} {u : Text} {x : Text × Text} (hc : c ≠ '@')
    (h : Endpoint.readClientCall? before (c :: u) = some x) : ∃ rest, c :: u = "client" ++ '.' :: rest := by
  cases hbefore : before.any (fun c => isWordChar c || c == '@') with
  | true =>
    unfold Endpoint.readClientCall? at h
    rw [hbefore] at h
    cases h
  | false =>
    rw [readClientCall?_cons hc hbefore] at h
    cases hlead : dropLead? "client." (c :: u) with
    | none =>
      rw [hlead] at h
      cases h
    | some rest =>
      have hsplit : c :: u = "client." ++ rest := dropLead?_eq_some_iff.mp hlead
      exact ⟨rest, hsplit⟩

theorem Declaration.first?_readClientCall (d : Declaration) :
    first? Endpoint.readClientCall? d.text = some d.call.text := by
  have hat : '@' ∉ d.callLead := d.isOver_callLead.not_mem rfl rfl (by decide)
  -- No dot stands before that of the call.
  have hmisses : ∀ t, Misses Endpoint.readClientCall? none d.callLead ("client" ++ '.' :: t) := fun t =>
    misses_of_marker (fun c hc b u x hx => eq_append_of_readClientCall? (fun heq => hat (heq ▸ hc)) hx) (by decide)
      (d.isOver_callLead.not_mem rfl rfl (by decide))
  have hbefore : d.callLead.getLast?.any (fun c => isWordChar c || c == '@') = false := by
    have hend : d.callLead = (d.clientLead ++ ("create_client(" ++ (d.client.text ++ [')']))) ++
        '\n' :: List.replicate (d.indent 8) ' ' := by
      unfold callLead
      simp only [List.append_assoc, List.cons_append, List.nil_append]
    rw [Option.any_eq_false]
    intro c hc
    rw [hend] at hc
    rcases getLast?_append_indent hc with rfl | rfl
    · decide
    · decide
  have hword : ∀ t, word? (d.call.text ++ ("(params)" ++ t)) = some (d.call.text, "(params)" ++ t) := fun _ =>
    d.call.word?_append rfl
  have hread : ∀ t, Endpoint.readClientCall? d.callLead.getLast? ("client" ++ '.' :: (d.call.text ++ ("(params)" ++ t))) =
      some (d.call.text, "(params)" ++ t) := fun t =>
    (readClientCall?_cons (by decide) hbefore _).trans (hword t)
  rw [text_eq_append_call]
  exact first?_append_of_eq_some (hmisses _) (hread _)

/-! ### The hook -/

/-- Before each opening brace stand a character that ends no word, and a space. -/
def IsGuarded (t : Text) : Prop :=
  ∀ s u, t = s ++ '\x7b' :: u → ∃ v c, s = v ++ [c, ' '] ∧ isBlank c = false ∧ c ≠ 'e'

theorem isGuarded_of_not_mem {t : Text} (h : '\x7b' ∉ t) : IsGuarded t := by
  rintro s u rfl
  exact absurd (by simp) h

theorem isGuarded_append_brace {s : Text} {c : Char} (hs : '\x7b' ∉ s) (hc : isBlank c = false) (hne : c ≠ 'e')
    (hbrace : c ≠ '\x7b') : IsGuarded (s ++ [c, ' '] ++ ['\x7b']) := by
  have hguard : '\x7b' ∉ s ++ [c, ' '] := List.not_mem_append hs (by simp [Ne.symm hbrace])
  intro v u h
  rcases List.append_eq_append_iff.mp h with ⟨y, hy, hsplit⟩ | ⟨y, hy, hsplit⟩
  · cases y with
    | nil => exact ⟨s, c, by rw [hy, List.append_nil], hc, hne⟩
    | cons d y => simp at hsplit
  · cases y with
    | nil => exact ⟨s, c, by rw [hy, List.append_nil], hc, hne⟩
    | cons d y =>
      obtain ⟨rfl, -⟩ := List.cons.inj hsplit
      exact absurd (by simp [hy]) hguard

theorem IsGuarded.append {s t : Text} (hs : IsGuarded s) (ht : IsGuarded t) : IsGuarded (s ++ t) := by
  intro v u h
  rcases List.append_eq_append_iff.mp h with ⟨y, rfl, hbrace⟩ | ⟨y, rfl, hbrace⟩
  · obtain ⟨w, c, rfl, hc⟩ := ht y u hbrace
    exact ⟨s ++ w, c, by rw [List.append_assoc], hc⟩
  · cases y with
    | nil =>
      obtain ⟨w, c, hw, hc⟩ := ht [] u hbrace.symm
      exact ⟨v ++ w, c, by rw [List.append_assoc, ← hw, List.append_nil], hc⟩
    | cons d y =>
      obtain ⟨rfl, -⟩ := List.cons.inj hbrace
      exact hs v y rfl

theorem isGuarded_onNewLines {ls : List Text} (h : ∀ l ∈ ls, IsGuarded l) : IsGuarded (onNewLines ls) := by
  induction ls with
  | nil => exact isGuarded_of_not_mem (List.not_mem_nil)
  | cons l ls ih =>
    have hbreak : IsGuarded ['\n'] := isGuarded_of_not_mem (by decide)
    exact hbreak.append ((h l List.mem_cons_self).append (ih fun m hm => h m (List.mem_cons_of_mem _ hm)))

theorem isGuarded_joinWith {ls : List Text} (h : ∀ l ∈ ls, IsGuarded l) : IsGuarded (joinWith "\n" ls) := by
  cases ls with
  | nil => exact isGuarded_of_not_mem List.not_mem_nil
  | cons l ls =>
    rw [joinWith_cons_eq]
    exact (h l List.mem_cons_self).append (isGuarded_onNewLines fun m hm => h m (List.mem_cons_of_mem _ hm))

/-- Neither `before` nor blanks behind it are what guards a brace. -/
theorem append_before_ne_guard {u blanks w : Text} {c : Char} (hblanks : ∀ d ∈ blanks, isBlank d = true)
    (hc : isBlank c = false) (hne : c ≠ 'e') : u ++ ("before" ++ blanks) ≠ w ++ [c, ' '] := by
  intro h
  -- Without the blanks at their ends, one text ends in `e` and the other in `c`.
  have hbefore : u ++ "before" = (u ++ "befor") ++ ['e'] := by
    rw [List.append_assoc]
    rfl
  have hleft : trimEnd (u ++ ("before" ++ blanks)) = (u ++ "befor") ++ ['e'] := by
    rw [← List.append_assoc, trimEnd_append_of_isBlank hblanks, hbefore]
    exact trimEnd_concat_of_not_isBlank rfl _
  have hright : trimEnd (w ++ [c, ' ']) = w ++ [c] := by
    rw [← List.singleton_append, ← List.append_assoc, trimEnd_concat_of_isBlank isBlank_space]
    exact trimEnd_concat_of_not_isBlank hc w
  rw [h, hright] at hleft
  exact hne (List.cons.inj (List.append_inj' hleft rfl).2).1

/-- Where every brace is guarded, no hook opens. -/
theorem first?_readHook_of_isGuarded {t : Text} (h : IsGuarded t) : first? Endpoint.readHook? t = none := by
  have hmisses : Misses Endpoint.readHook? none t [] := by
    refine misses_of_split fun u c v hsplit => ?_
    rw [List.append_nil, Option.eq_none_iff_forall_ne_some]
    intro x hx
    unfold Endpoint.readHook? at hx
    cases hbefore : dropLead? "before" (c :: v) with
    | none =>
      rw [hbefore] at hx
      cases hx
    | some r =>
      rw [hbefore] at hx
      cases hbrace : dropLead? "\x7b" (trimStart r) with
      | none =>
        simp only [Option.bind_eq_bind, Option.bind_some, hbrace, Option.bind_none] at hx
        cases hx
      | some body =>
        have hr : trimStart r = '\x7b' :: body := dropLead?_eq_some_iff.mp hbrace
        have hblanks : r = r.takeWhile isBlank ++ '\x7b' :: body := by
          rw [← hr]
          exact (List.takeWhile_append_dropWhile).symm
        have hsource : t = (u ++ ("before" ++ r.takeWhile isBlank)) ++ '\x7b' :: body := by
          rw [hsplit, dropLead?_eq_some_iff.mp hbefore, List.append_assoc, List.append_assoc, ← hblanks]
        obtain ⟨w, d, hw, hd, hne⟩ := h _ _ hsource
        exact append_before_ne_guard (List.all_eq_true.mp List.all_takeWhile) hd hne hw
  rw [first?, find?_eq_none hmisses fun _ => rfl]
  rfl

theorem IsOver.isGuarded {a t : Text} (h : IsOver a t) (ha : '\x7b' ∉ a) : IsGuarded t :=
  isGuarded_of_not_mem (h.not_mem rfl rfl ha)

theorem isGuarded_indented (n : Nat) {t : Text} (h : IsGuarded t) : IsGuarded (indented n t) :=
  IsGuarded.append ((isOver_replicate_space (a := []) n).isGuarded List.not_mem_nil) h

theorem Header.isGuarded (h : Header) : ∀ l ∈ h.lines, IsGuarded l := by
  have hname : IsGuarded h.nameContent := by
    have hover : IsOver "'=" ("'" ++ h.name.text ++ "' =") := .append (.append (by decide) h.name.isOver) (by decide)
    have hsplit : h.nameContent = ("'" ++ h.name.text ++ "' =") ++ ['>', ' '] ++ ['\x7b'] := by
      unfold nameContent
      simp only [List.append_assoc]
      rfl
    rw [hsplit]
    exact isGuarded_append_brace (hover.not_mem rfl rfl (by decide)) rfl (by decide) (by decide)
  exact h.forall_mem_lines (fun _ => isGuarded_indented _ hname)
    (fun _ => isGuarded_indented _ (h.isOver_descriptionContent.isGuarded (by decide)))
    fun _ => isGuarded_indented _ (isGuarded_of_not_mem (by decide))

namespace Declaration
variable (d : Declaration)

theorem isGuarded_titleContent : IsGuarded d.titleContent := by
  have hover : IsOver "'" ("desc '" ++ d.title.text ++ "'") := .append (.append (by decide) d.title.isOver) (by decide)
  have hsplit : d.titleContent = ("desc '" ++ d.title.text ++ "'") ++ [',', ' '] ++ ['\x7b'] := by
    unfold titleContent
    simp only [List.append_assoc]
    rfl
  rw [hsplit]
  exact isGuarded_append_brace (hover.not_mem rfl rfl (by decide)) rfl (by decide) (by decide)

theorem isGuarded_headerLines : ∀ l ∈ d.headerLines, IsGuarded l := by
  have hopen : IsGuarded "headers: \x7b" :=
    isGuarded_append_brace (s := "headers") (c := ':') (by decide) rfl (by decide) (by decide)
  exact d.forall_mem_headerLines (fun _ => isGuarded_indented _ hopen) Header.isGuarded
    fun _ => isGuarded_indented _ (isGuarded_of_not_mem (by decide))

theorem isGuarded : ∀ l ∈ d.lines, IsGuarded l := by
  intro l hl
  simp only [lines, List.cons_append, List.mem_cons, List.mem_append, or_assoc] at hl
  rcases hl with rfl | hl | hl | hl
  · exact isGuarded_indented _ d.isGuarded_titleContent
  · exact d.isGuarded_headerLines l hl
  · exact (d.isOver_paramsLines l hl).isGuarded (by decide)
  · exact (d.isOver_handlerLines l hl).isGuarded (by decide)

end Declaration

namespace Document
variable {limit : Nat} (f : Document limit)

theorem isGuarded : ∀ l ∈ f.lines, IsGuarded l := by
  induction f with
  | nil => exact fun l hl => by cases hl
  | blank indent rest ih =>
    exact List.forall_mem_cons.mpr ⟨isGuarded_indented _ (isGuarded_of_not_mem List.not_mem_nil), ih⟩
  | unit d rest ih => exact List.forall_mem_append.mpr ⟨d.isGuarded, ih⟩
  | resource name opening closing hclosing inside rest ihinside ihrest =>
    have hopening : IsOver ":" ("resource :" ++ name.text ++ " do") :=
      .append (.append (by decide) name.isOver) (by decide)
    exact List.forall_mem_append.mpr
      ⟨List.forall_mem_cons.mpr ⟨isGuarded_indented _ (hopening.isGuarded (by decide)), ihinside⟩,
        List.forall_mem_cons.mpr ⟨isGuarded_indented _ (isGuarded_of_not_mem (by decide)), ihrest⟩⟩

/-- No hook stands in a canonical file. -/
theorem first?_readHook : first? Endpoint.readHook? (joinWith "\n" f.lines) = none :=
  first?_readHook_of_isGuarded (isGuarded_joinWith f.isGuarded)

end Document

end EndpointAtlas.Canonical
