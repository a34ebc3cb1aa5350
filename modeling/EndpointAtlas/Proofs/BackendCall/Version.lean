import EndpointAtlas.Proofs.BackendCall.Router
import EndpointAtlas.Proofs.Text.Blank

/-! The version of a backend. A literal stands for its text, and the name of the constant for what the file assigns to
    it. A record keeps to this unless the literal holds quotes, the name or blanks at its ends, or something else in
    the file reads like the assignment. -/

namespace EndpointAtlas.BackendCall
open Text

variable {text s u value w rest : Text} {before : Option Char} {r : Router} {b : Block}

/-! ### The constant of a file -/

/-- A value is assigned to the constant behind `s`. The name is a whole word, and the line does not end before the
    value does. -/
structure AssignsAt (s u value : Text) : Prop where
  whole : startsWord s.getLast? = true
  onLine : ∃ gap gap' rest, u = versionConstant ++ (gap ++ '=' :: (gap' ++ '"' :: (value ++ '"' :: rest))) ∧
    (∀ c ∈ gap ++ gap', isBlank c = true ∧ c ≠ '\n') ∧ '"' ∉ value ∧ '\n' ∉ value

/-- The version that a file declares: the value of its first assignment, and `V1` if there is none. -/
def IsFileVersion (text v : Text) : Prop :=
  (∃ s u, text = s ++ u ∧ AssignsAt s u v ∧ ∀ s' u' v', text = s' ++ u' → AssignsAt s' u' v' → s.length ≤ s'.length) ∨
    (∀ s u v', text = s ++ u → ¬ AssignsAt s u v') ∧ v = "V1"

/-- What reads like an assignment: the last letters of any name may be the name of the constant, and lines may end on
    both sides of the equals sign. -/
def ConstantAt : Pattern Text := Behind versionConstant (Behind "=" fun s t rest => Quoted '"' s t rest ∧ '\n' ∉ s)

/-- What reads like an assignment in a file is one, or stands behind one. -/
def AssignsFirst (text : Text) : Prop := ∀ s u v rest, text = s ++ u → ConstantAt v u rest →
  ∃ s' u' v', text = s' ++ u' ∧ AssignsAt s' u' v' ∧ s'.length ≤ s.length

/-- Reads a text in double quotes within the line. -/
def quotedOnLine? (t : Text) : Option (Text × Text) := do
  let (value, t) ← quoted? '"' t
  if value.contains '\n' then none else some (value, t)

theorem quotedOnLine?_eq_some_iff : quotedOnLine? u = some (value, rest) ↔ Quoted '"' value u rest ∧ '\n' ∉ value := by
  rw [quotedOnLine?, Option.bind_eq_bind, Option.bind_eq_some_iff]
  simp only [Prod.exists, quoted?_eq_some_iff, Option.ite_none_left_eq_some, List.contains_iff_mem, Option.some.injEq,
    Prod.mk.injEq]
  constructor
  · rintro ⟨s, rest, hquoted, hbreak, rfl, rfl⟩
    exact ⟨hquoted, hbreak⟩
  · rintro ⟨hquoted, hbreak⟩
    exact ⟨value, rest, hquoted, hbreak, rfl, rfl⟩

theorem reads_readVersionConstant? : Reads readVersionConstant? ConstantAt := by
  intro before t value rest
  have hvalue : ∀ c x, isBlank c = true → quotedOnLine? (c :: x) = none := fun c x hc => by
    rw [quotedOnLine?, quoted?_cons_of_isBlank rfl hc]
    rfl
  refine behind_iff (f := fun t => (dropLead? "=" t).bind fun t => quotedOnLine? (trimStart t)) (fun c x hc => ?_)
    fun t value rest => behind_iff hvalue fun _ _ _ => quotedOnLine?_eq_some_iff
  show (dropLead? ['='] (c :: x)).bind _ = none
  rw [dropLead?_cons_of_isBlank rfl hc]
  rfl

theorem AssignsAt.constantAt (h : AssignsAt s u value) : ∃ rest, ConstantAt value u rest := by
  obtain ⟨gap, gap', rest, rfl, hgap, hquote, hbreak⟩ := h.onLine
  have hleft : ∀ c ∈ gap, isBlank c = true := fun c hc => (hgap c (List.mem_append_left gap' hc)).1
  have hright : ∀ c ∈ gap', isBlank c = true := fun c hc => (hgap c (List.mem_append_right gap hc)).1
  exact ⟨rest, gap, _, rfl, hleft, gap', _, rfl, hright, ⟨rfl, hquote⟩, hbreak⟩

theorem versionOfFile_eq (text : Text) : (∃ rest, ReadsFirst ConstantAt text (versionOfFile text) rest) ∨
    (∀ v rest, ¬ ReadsFirst ConstantAt text v rest) ∧ versionOfFile text = "V1" := by
  rw [versionOfFile]
  cases h : first? readVersionConstant? text with
  | some v => exact Or.inl (reads_readVersionConstant?.first?_eq_some_iff.mp h)
  | none =>
    refine Or.inr ⟨fun v rest hfirst => ?_, rfl⟩
    rw [reads_readVersionConstant?.first?_eq_some_iff.mpr ⟨rest, hfirst⟩] at h
    cases h

theorem isFileVersion_versionOfFile (h : AssignsFirst text) : IsFileVersion text (versionOfFile text) := by
  rcases versionOfFile_eq text with ⟨rest, s, u, hsplit, hplace, hfirst⟩ | ⟨hnone, hdefault⟩
  · obtain ⟨s', u', v', hsplit', hassigns, hle⟩ := h s u _ rest hsplit hplace
    obtain ⟨rest', hplace'⟩ := hassigns.constantAt
    have hlength : s.length = s'.length := Nat.le_antisymm (hfirst _ _ _ _ hsplit' hplace') hle
    obtain ⟨rfl, rfl⟩ := List.append_inj (hsplit.symm.trans hsplit') hlength
    obtain ⟨rfl, -⟩ := reads_readVersionConstant?.eq_of_place hplace' hplace
    refine Or.inl ⟨s, u, hsplit, hassigns, fun s' u' v' hsplit' hassigns' => ?_⟩
    obtain ⟨rest', hplace'⟩ := hassigns'.constantAt
    exact hfirst _ _ _ _ hsplit' hplace'
  · refine Or.inr ⟨fun s u v hsplit hassigns => ?_, hdefault⟩
    obtain ⟨rest, hplace⟩ := hassigns.constantAt
    obtain ⟨v', rest', hfirst⟩ := reads_readVersionConstant?.exists_readsFirst (s := s) hplace
    exact hnone v' rest' (hsplit ▸ hfirst)

theorem AssignsAt.value_eq {v : Text} (h : AssignsAt s u value) (h' : AssignsAt s u v) : value = v := by
  obtain ⟨rest, hplace⟩ := h.constantAt
  obtain ⟨rest', hplace'⟩ := h'.constantAt
  exact (reads_readVersionConstant?.eq_of_place hplace hplace').1

theorem IsFileVersion.unique {v v' : Text} (h : IsFileVersion text v) (h' : IsFileVersion text v') : v = v' := by
  rcases h with ⟨s, u, hsplit, hassigns, hfirst⟩ | ⟨hnone, rfl⟩
  · rcases h' with ⟨s', u', hsplit', hassigns', hfirst'⟩ | ⟨hnone', -⟩
    · have hlength : s.length = s'.length :=
        Nat.le_antisymm (hfirst _ _ _ hsplit' hassigns') (hfirst' _ _ _ hsplit hassigns)
      obtain ⟨rfl, rfl⟩ := List.append_inj (hsplit.symm.trans hsplit') hlength
      exact hassigns.value_eq hassigns'
    · exact absurd hassigns (hnone' s u v hsplit)
  · rcases h' with ⟨s', u', hsplit', hassigns', -⟩ | ⟨-, rfl⟩
    · exact absurd hassigns' (hnone s' u' v' hsplit')
    · rfl

/-- The place of an assignment is the first one if nothing before it reads like one behind the end of a word. -/
theorem AssignsAt.isFileVersion (h : AssignsAt s u value) (hnone : ∀ n < s.length,
    startsWord ((s ++ u).take n).getLast? = true → readVersionConstant? none ((s ++ u).drop n) = none) :
    IsFileVersion (s ++ u) value := by
  refine Or.inl ⟨s, u, rfl, h, fun s' u' v' hsplit hassigns => Nat.le_of_not_lt fun hlt => ?_⟩
  obtain ⟨rest, hplace⟩ := hassigns.constantAt
  have hread := hnone s'.length hlt
  rw [hsplit, List.take_left, List.drop_left, reads_readVersionConstant?.mpr hplace] at hread
  cases hread hassigns.whole

/-- The usual spelling of an assignment. -/
theorem assignsAt_usual (hs : startsWord s.getLast? = true) (hquote : '"' ∉ value) (hbreak : '\n' ∉ value)
    (rest : Text) : AssignsAt s ("BACKEND_VERSION = \"" ++ (value ++ '"' :: rest)) value := by
  have hspelling : ("BACKEND_VERSION = \"" : Text) = versionConstant ++ [' ', '=', ' ', '"'] := by decide
  have hspace : isBlank ' ' = true ∧ ' ' ≠ '\n' := ⟨rfl, by decide⟩
  refine ⟨hs, [' '], [' '], rest, ?_, List.forall_mem_cons.mpr ⟨hspace, List.forall_mem_singleton.mpr hspace⟩, hquote,
    hbreak⟩
  rw [hspelling, List.append_assoc]
  rfl

theorem AssignsAt.assignsFirst (h : AssignsAt s u value)
    (hnone : ∀ n < s.length, readVersionConstant? none ((s ++ u).drop n) = none) : AssignsFirst (s ++ u) := by
  refine fun s' u' v' rest hsplit hplace => ⟨s, u, value, rfl, h, Nat.le_of_not_lt fun hlt => ?_⟩
  have hread := hnone s'.length hlt
  rw [hsplit, List.drop_left, reads_readVersionConstant?.mpr hplace] at hread
  cases hread

/-! ### The version of a router -/

/-- What a written version stands for in a file. -/
def WrittenVersion.StandsFor (text : Text) : WrittenVersion → Text → Prop
  | literal s, v => v = s
  | identifier w, v => (w = versionConstant ∧ IsFileVersion text v) ∨ (w ≠ versionConstant ∧ v = w)

/-- A literal holds no quote, no blank at its ends, and not the name of the constant alone. If the constant is named,
    its first assignment is the first thing in the file that reads like one. -/
def WrittenVersion.IsPlain (text : Text) : WrittenVersion → Prop
  | literal s => trim s = s ∧ '"' ∉ s ∧ '\'' ∉ s ∧ s ≠ versionConstant
  | identifier w => w = versionConstant → AssignsFirst text

/-- The text without quotes of either kind. -/
def withoutQuotes (t : Text) : Text := t.filter fun c => c != '"' && c != '\''

theorem withoutQuotes_of_not_mem (hdouble : '"' ∉ s) (hsingle : '\'' ∉ s) : withoutQuotes s = s := by
  refine List.filter_eq_self.mpr fun c hc => ?_
  rw [Bool.and_eq_true, bne_iff_ne, bne_iff_ne]
  constructor
  · rintro rfl
    exact hdouble hc
  · rintro rfl
    exact hsingle hc

theorem withoutQuotes_of_isWord (h : IsWord w) : withoutQuotes w = w := by
  refine withoutQuotes_of_not_mem (fun hmem => ?_) (fun hmem => ?_)
  · cases h.2 _ hmem
  · cases h.2 _ hmem

theorem DeclaresRouter.isWord {block : Text} (h : DeclaresRouter block r) (hw : r.version = .identifier w) :
    IsWord w := by
  obtain ⟨t, u, rest, -, -, _, _, -, ⟨_, _, -, -, hversion⟩, -⟩ := h
  rw [hw] at hversion
  exact hversion.1

theorem resolveVersion_of_isWord (h : IsWord w) (fileVersion : Text) :
    resolveVersion fileVersion w = if w = versionConstant then fileVersion else w := by
  rw [resolveVersion, h.trim_eq]
  exact congrArg _ (withoutQuotes_of_isWord h)

theorem DeclaresRouter.backendVersion_eq {block : Text} (h : DeclaresRouter block r) (version fileVersion : Text) :
    (ofBlock version fileVersion block).backendVersion = resolveVersion fileVersion r.version.text := by
  simp only [ofBlock, routeOf?_eq, router?_eq_some_iff.mpr h]
  rfl

/-- The version of a record is that of its router: a plain literal as it is written, the constant as the file assigns
    it, and any other name as it stands. What is not plain is trimmed and loses its quotes, and what reads like the
    name of the constant is taken for it, in a literal as well as in the file. -/
theorem backendVersion_of_router (version : Text) (hb : b ∈ Definition.blocks text) (h : DeclaresRouter b.text r) :
    let call := ofBlock version (versionOfFile text) b.text
    call ∈ ofFile version text ∧ (r.version.IsPlain text → r.version.StandsFor text call.backendVersion) ∧
      (∀ w, r.version = .identifier w → call.backendVersion = if w = versionConstant then versionOfFile text else w) ∧
      (∀ s, r.version = .literal s → call.backendVersion =
        if trim s = versionConstant then versionOfFile text else withoutQuotes (trim s)) ∧
      ((∃ rest, ReadsFirst ConstantAt text (versionOfFile text) rest) ∨
        (∀ v rest, ¬ ReadsFirst ConstantAt text v rest) ∧ versionOfFile text = "V1") := by
  intro call
  have hcall : call.backendVersion = resolveVersion (versionOfFile text) r.version.text :=
    h.backendVersion_eq version (versionOfFile text)
  have hidentifier : ∀ w, r.version = .identifier w →
      call.backendVersion = if w = versionConstant then versionOfFile text else w := fun w hw => by
    rw [hcall, hw]
    exact resolveVersion_of_isWord (h.isWord hw) _
  have hliteral : ∀ s, r.version = .literal s → call.backendVersion =
      if trim s = versionConstant then versionOfFile text else withoutQuotes (trim s) := fun s hs => by
    rw [hcall, hs]
    rfl
  refine ⟨List.mem_map.mpr ⟨b, hb, rfl⟩, fun hplain => ?_, hidentifier, hliteral, versionOfFile_eq text⟩
  cases hversion : r.version with
  | literal s =>
    rw [hversion] at hplain
    obtain ⟨htrim, hdouble, hsingle, hname⟩ := hplain
    rw [hliteral s hversion, htrim, if_neg hname, withoutQuotes_of_not_mem hdouble hsingle]
    exact rfl
  | identifier w =>
    rw [hversion] at hplain
    rw [hidentifier w hversion]
    by_cases hw : w = versionConstant
    · rw [if_pos hw]
      exact Or.inl ⟨hw, isFileVersion_versionOfFile (hplain hw)⟩
    · rw [if_neg hw]
      exact Or.inr ⟨hw, rfl⟩

theorem backendVersion_of_charge :
    let s : Text := "class Billing\n  "
    let lines : List Text := ["def charge", "    micro_service: \"billing\",", "    operation: \"charge\",",
      "    backend_ver: BACKEND_VERSION", "  end"]
    let rest : Text := "\n\n  " ++ (joinWith "\n" lines ++ "\nend\n")
    let u : Text := "BACKEND_VERSION = \"" ++ ("2.5" ++ '"' :: rest)
    let b : Block := ⟨.definition, [], joinWith "\n" lines⟩
    b ∈ Definition.blocks (s ++ u) ∧ DeclaresRouter b.text ⟨"billing", "charge", .identifier versionConstant⟩ ∧
      AssignsFirst (s ++ u) ∧ IsFileVersion (s ++ u) (ofBlock "V2" (versionOfFile (s ++ u)) b.text).backendVersion ∧
      (ofBlock "V2" (versionOfFile (s ++ u)) b.text).backendVersion = "2.5" := by
  intro s lines rest u b
  have hb : b ∈ Definition.blocks (s ++ u) := by decide +kernel
  have hr : DeclaresRouter b.text ⟨"billing", "charge", .identifier versionConstant⟩ := by decide +kernel
  have hassigns : AssignsAt s u "2.5" := assignsAt_usual (by decide +kernel) (by decide) (by decide) rest
  have hfirst : AssignsFirst (s ++ u) := hassigns.assignsFirst (by decide +kernel)
  have hstands := (backendVersion_of_router "V2" hb hr).2.1 fun _ => hfirst
  rcases hstands with ⟨-, hversion⟩ | ⟨hname, -⟩
  · exact ⟨hb, hr, hfirst, hversion, hversion.unique (hassigns.isFileVersion (by decide +kernel))⟩
  · exact absurd rfl hname

/-- Another constant is taken for the version of the file, a literal for the constant, and a literal loses its quote and
    its blanks. -/
theorem versions_misread :
    let s : Text := "OLD_BACKEND_VERSION = \"0.9\"\n"
    let rest : Text := joinWith "\n" ["",
      "def a", "  micro_service: \"s\", operation: \"a\", backend_ver: BACKEND_VERSION", "end",
      "def b", "  micro_service: \"s\", operation: \"b\", backend_ver: \"BACKEND_VERSION\"", "end",
      "def c", "  micro_service: \"s\", operation: \"c\", backend_ver: \" it's \"", "end", ""]
    let u : Text := "BACKEND_VERSION = \"" ++ ("2.5" ++ '"' :: rest)
    IsFileVersion (s ++ u) "2.5" ∧
      (Definition.blocks (s ++ u)).map (fun b => router? b.text) = [some ⟨"s", "a", .identifier versionConstant⟩,
        some ⟨"s", "b", .literal "BACKEND_VERSION"⟩, some ⟨"s", "c", .literal " it's "⟩] ∧
      (ofFile "V2" (s ++ u)).map BackendCall.backendVersion = [("0.9" : Text), ("0.9" : Text), ("its" : Text)] ∧
      ¬ (WrittenVersion.identifier versionConstant).StandsFor (s ++ u) "0.9" ∧
      ¬ (WrittenVersion.literal "BACKEND_VERSION").StandsFor (s ++ u) "0.9" ∧
      ¬ (WrittenVersion.literal " it's ").StandsFor (s ++ u) "its" := by
  intro s rest u
  have hassigns : AssignsAt s u "2.5" := assignsAt_usual (by decide +kernel) (by decide) (by decide) rest
  have hversion : IsFileVersion (s ++ u) "2.5" := hassigns.isFileVersion (by decide +kernel)
  refine ⟨hversion, by decide +kernel, by decide +kernel, ?_, ?_, ?_⟩
  · rintro (⟨-, hold⟩ | ⟨hname, -⟩)
    · exact absurd (hold.unique hversion) (by decide)
    · exact hname rfl
  · show ("0.9" : Text) ≠ "BACKEND_VERSION"
    decide
  · show ("its" : Text) ≠ " it's "
    decide

end EndpointAtlas.BackendCall
