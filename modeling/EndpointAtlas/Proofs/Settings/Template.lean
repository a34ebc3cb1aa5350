import EndpointAtlas.Proofs.Text.First
import EndpointAtlas.Settings.FromToml

/-! Settings files as templates. A text is parted at its leftmost placeholders, none of which overlaps the one before,
    and there is one way to do so. Filling puts a value into each of these places and into no other, so that what a
    value holds is never looked at, and only the variables that the placeholders name matter. -/

namespace EndpointAtlas
open Text

/-- Placeholders with the texts around them. -/
inductive Template where
  | last (t : Text)
  | more (t name : Text) (rest : Template)
  deriving DecidableEq, Repr

/-- A placeholder stands at the front of the text. -/
def Piece.Stands : Pattern Text := fun name t rest =>
  t = (Piece.placeholder name).toText ++ rest ∧ name ≠ [] ∧ '\x7d' ∉ name

namespace Template

/-- The text that is parted at the placeholders. -/
def toText : Template → Text
  | last t => t
  | more t name rest => t ++ ((Piece.placeholder name).toText ++ rest.toText)

/-- The names of its placeholders, in order. -/
def names : Template → List Text
  | last _ => []
  | more _ name rest => name :: rest.names

/-- The values stand where the placeholders stood; a placeholder without a value stays. -/
def fill (vars : Variables) : Template → Text
  | last t => t
  | more t name rest => t ++ ((vars name).getD (Piece.placeholder name).toText ++ rest.fill vars)

/-- The placeholders of the template are those of the text, each the first one behind the one before. -/
inductive Parts : Template → Text → Prop where
  | last {t : Text} (hnone : ∀ s u name rest, t = s ++ u → ¬ Piece.Stands name u rest) : Parts (last t) t
  | more {s u name rest : Text} {T : Template} (hplace : Piece.Stands name u rest)
      (hfirst : ∀ s' u' name' rest', s ++ u = s' ++ u' → Piece.Stands name' u' rest' → s.length ≤ s'.length)
      (hrest : Parts T rest) : Parts (more s name T) (s ++ u)

/-- One more character in front. -/
def push (c : Char) : Template → Template
  | last t => last (c :: t)
  | more t name rest => more (c :: t) name rest

/-- The template that pieces make up. -/
def ofPieces : List Piece → Template
  | [] => last []
  | .char c :: ps => (ofPieces ps).push c
  | .placeholder name :: ps => more [] name (ofPieces ps)

/-- The template that a text is read as. -/
def ofText (t : Text) : Template := ofPieces (Piece.ofText 0 t)

end Template

variable {c : Char} {s t u name rest : Text} {T : Template} {vars vars' : Variables}

/-! ### Placeholders one by one -/

namespace Piece

theorem placeholder?_eq_some_iff : placeholder? t = some (name, rest) ↔ Stands name t rest := by
  have hread : placeholder? t = (dropLead? ['$', '\x7b'] t).bind fun u => upTo? '\x7d' u >>= nonempty? := rfl
  simp only [hread, Option.bind_eq_some_iff, dropLead?_eq_some_iff, bind_nonempty?_eq_some_iff, upTo?_eq_some_iff,
    Stands]
  constructor
  · rintro ⟨u, rfl, ⟨rfl, hbrace⟩, hne⟩
    exact ⟨by simp [toText], hne, hbrace⟩
  · rintro ⟨rfl, hne, hbrace⟩
    exact ⟨_, by simp [toText], ⟨rfl, hbrace⟩, hne⟩

theorem placeholder?_eq_none_iff : placeholder? t = none ↔ ∀ name rest, ¬ Stands name t rest := by
  simp only [Option.eq_none_iff_forall_ne_some, Prod.forall, ne_eq, placeholder?_eq_some_iff]

theorem ofText_length_append (s t : Text) : ofText s.length (s ++ t) = ofText 0 t := by
  induction s with
  | nil => rfl
  | cons c s ih => exact ih

theorem ofText_of_stands (h : Stands name t rest) : ofText 0 t = placeholder name :: ofText 0 rest := by
  have hread := placeholder?_eq_some_iff.mpr h
  obtain ⟨ht, -, -⟩ := h
  have htext : t = '$' :: (('\x7b' :: name ++ ['\x7d']) ++ rest) := by simp [ht, toText]
  rw [htext] at hread ⊢
  simp only [ofText, hread]
  rw [List.length_append, Nat.add_sub_cancel, ofText_length_append]

theorem ofText_cons (h : placeholder? (c :: t) = none) : ofText 0 (c :: t) = char c :: ofText 0 t := by
  simp only [ofText, h]

end Piece

namespace Template

theorem ofText_of_stands (h : Piece.Stands name t rest) : ofText t = more [] name (ofText rest) := by
  rw [ofText, Piece.ofText_of_stands h]
  rfl

theorem ofText_cons (h : ∀ name rest, ¬ Piece.Stands name (c :: t) rest) : ofText (c :: t) = (ofText t).push c := by
  rw [ofText, Piece.ofText_cons (Piece.placeholder?_eq_none_iff.mpr h)]
  rfl

/-! ### The one way to part a text -/

theorem Parts.push (h : T.Parts t) (hnone : ∀ name rest, ¬ Piece.Stands name (c :: t) rest) :
    (T.push c).Parts (c :: t) := by
  cases h with
  | last hlast =>
    refine .last fun s u name rest hsplit hplace => ?_
    cases s with
    | nil => exact hnone name rest (hsplit ▸ hplace)
    | cons d s => exact hlast s u name rest (List.cons.inj hsplit).2 hplace
  | @more s u name rest T hplace hfirst hrest =>
    refine Parts.more (s := c :: s) hplace (fun s' u' name' rest' hsplit hplace' => ?_) hrest
    cases s' with
    | nil => exact absurd hplace' (by rw [← List.nil_append u', ← hsplit]; exact hnone name' rest')
    | cons d s' => exact Nat.succ_le_succ (hfirst s' u' name' rest' (List.cons.inj hsplit).2 hplace')

theorem parts_ofText (t : Text) : (ofText t).Parts t := by
  -- A whole placeholder is taken at once, so the induction is on the length.
  induction h : t.length using Nat.strongRecOn generalizing t with
  | ind n ih =>
    cases t with
    | nil => exact .last fun s u name rest hsplit hplace => by simp_all [Piece.Stands, Piece.toText]
    | cons c t =>
      by_cases hplace : ∃ name rest, Piece.Stands name (c :: t) rest
      · obtain ⟨name, rest, hplace⟩ := hplace
        rw [ofText_of_stands hplace]
        refine Parts.more (s := []) hplace (fun _ _ _ _ _ _ => Nat.zero_le _) (ih rest.length ?_ rest rfl)
        rw [← h, hplace.1, List.length_append]
        exact Nat.lt_add_of_pos_left (Nat.succ_pos _)
      · have hnone : ∀ name rest, ¬ Piece.Stands name (c :: t) rest := fun name rest hp => hplace ⟨name, rest, hp⟩
        rw [ofText_cons hnone]
        exact (ih t.length (by simp [← h]) t rfl).push hnone

theorem ofText_append (hplace : Piece.Stands name u rest)
    (hfirst : ∀ s' u' name' rest', s ++ u = s' ++ u' → Piece.Stands name' u' rest' → s.length ≤ s'.length) :
    ofText (s ++ u) = more s name (ofText rest) := by
  induction s with
  | nil => exact ofText_of_stands hplace
  | cons c s ih =>
    have hnone : ∀ name rest, ¬ Piece.Stands name (c :: (s ++ u)) rest := fun name' rest' hplace' =>
      absurd (hfirst [] _ name' rest' rfl hplace') (Nat.not_succ_le_zero _)
    have hlater : ∀ s' u' name' rest', s ++ u = s' ++ u' → Piece.Stands name' u' rest' → s.length ≤ s'.length :=
      fun s' u' name' rest' hsplit hplace' =>
        Nat.le_of_succ_le_succ (hfirst (c :: s') u' name' rest' (congrArg (c :: ·) hsplit) hplace')
    rw [List.cons_append, ofText_cons hnone, ih hlater]
    rfl

theorem ofText_of_forall_not (h : ∀ s u name rest, t = s ++ u → ¬ Piece.Stands name u rest) : ofText t = last t := by
  induction t with
  | nil => rfl
  | cons c t ih =>
    have htail : ofText t = last t := ih fun s u name rest hsplit =>
      h (c :: s) u name rest (congrArg (c :: ·) hsplit)
    rw [ofText_cons (h [] (c :: t) · · rfl), htail]
    rfl

theorem parts_iff : T.Parts t ↔ T = ofText t := by
  constructor
  · intro h
    induction h with
    | last hnone => exact (ofText_of_forall_not hnone).symm
    | more hplace hfirst _ ih => rw [ofText_append hplace hfirst, ih]
  · rintro rfl
    exact parts_ofText t

theorem Parts.toText_eq (h : T.Parts t) : T.toText = t := by
  induction h with
  | last => rfl
  | more hplace _ _ ih => rw [toText, ih, hplace.1]

/-! ### Filling -/

theorem fill_push (vars : Variables) (c : Char) (T : Template) : (T.push c).fill vars = c :: T.fill vars := by
  cases T <;> rfl

theorem fillPlaceholders_eq (vars : Variables) (t : Text) : fillPlaceholders vars t = (ofText t).fill vars := by
  have hpieces : ∀ ps : List Piece, ps.flatMap (·.fill vars) = (ofPieces ps).fill vars := by
    intro ps
    induction ps with
    | nil => rfl
    | cons p ps ih =>
      rw [List.flatMap_cons, ih]
      cases p with
      | char c => rw [ofPieces, fill_push]; rfl
      | placeholder name => rfl
  exact hpieces _

theorem fill_congr (h : ∀ n ∈ T.names, vars n = vars' n) : T.fill vars = T.fill vars' := by
  induction T with
  | last t => rfl
  | more t name rest ih =>
    rw [fill, fill, h name List.mem_cons_self, ih fun n hn => h n (List.mem_cons_of_mem _ hn)]

theorem fill_of_forall_eq_none (h : ∀ n ∈ T.names, vars n = none) : T.fill vars = T.toText := by
  induction T with
  | last t => rfl
  | more t name rest ih =>
    rw [fill, toText, h name List.mem_cons_self, ih fun n hn => h n (List.mem_cons_of_mem _ hn)]
    rfl

end Template

/-! ### Environments -/

/-- A line of an environment is cut at its first equals sign. -/
theorem dropLead?_entry {key n m value : Text} (hkey : '=' ∉ key) (hn : '=' ∉ n) :
    dropLead? (n ++ '=' :: m) (key ++ '=' :: value) = if key = n then dropLead? m value else none := by
  by_cases h : key = n
  · subst h
    rw [if_pos rfl]
    ext rest
    simp [dropLead?_eq_some_iff]
  · rw [if_neg h, Option.eq_none_iff_forall_ne_some]
    intro rest hrest
    have hcut : key ++ '=' :: value = n ++ '=' :: (m ++ rest) := by simpa using dropLead?_eq_some_iff.mp hrest
    have hread : upTo? '=' (key ++ '=' :: value) = some (key, value) := upTo?_eq_some_iff.mpr ⟨rfl, hkey⟩
    rw [upTo?_eq_some_iff.mpr ⟨hcut, hn⟩] at hread
    cases hread
    exact h rfl

namespace Variables
variable {entries : List (Text × Text)} {key : Text}

theorem ofEntries_eq_lookup (h : ∀ e ∈ entries, '=' ∉ e.1) {n : Text} (hn : '=' ∉ n) :
    ofEntries entries n = entries.lookup n := by
  induction entries with
  | nil => rfl
  | cons e entries ih =>
    obtain ⟨key, value⟩ := e
    have hread : dropLead? (n ++ ['=']) (key ++ '=' :: value) = if key = n then some value else none :=
      dropLead?_entry (h _ List.mem_cons_self) hn
    rw [List.lookup_cons, ← ih fun d hd => h d (List.mem_cons_of_mem _ hd), ofEntries, List.findSome?_cons]
    by_cases heq : key = n
    · subst heq
      simp only [hread, if_true, beq_self_eq_true]
    · have hne : (n == key) = false := beq_eq_false_iff_ne.mpr (Ne.symm heq)
      simp only [hread, heq, hne, if_false]
      rfl

/-- A name with an equals sign is looked for in the value of the variable that is named before the sign. -/
theorem ofEntries_append_cons (h : ∀ e ∈ entries, '=' ∉ e.1) (hkey : '=' ∉ key) (m : Text) :
    ofEntries entries (key ++ '=' :: m) =
      entries.findSome? fun e => if e.1 = key then dropLead? (m ++ ['=']) e.2 else none := by
  induction entries with
  | nil => rfl
  | cons e entries ih =>
    obtain ⟨n, value⟩ := e
    have hread : dropLead? (key ++ '=' :: m ++ ['=']) (n ++ '=' :: value) =
        if n = key then dropLead? (m ++ ['=']) value else none := by
      rw [List.append_assoc]
      exact dropLead?_entry (h _ List.mem_cons_self) hkey
    rw [List.findSome?_cons, ← ih fun d hd => h d (List.mem_cons_of_mem _ hd), ofEntries, List.findSome?_cons]
    simp only [hread]
    rfl

end Variables

/-- A settings file is read with the values of its placeholders in their places. Its text is parted in one way, nothing
    but the variables that are named matters, and without values the text stays. An environment gives the values of its
    variables, but a name that holds an equals sign also finds what follows it in a line. -/
theorem fillPlaceholders_template (t : Text) : ∃ T : Template, (∀ T' : Template, T'.Parts t ↔ T' = T) ∧ T.toText = t ∧
    (∀ vars, fillPlaceholders vars t = T.fill vars ∧ Settings.ofToml vars t =
      match (Toml.ofText? (T.fill vars)).bind Settings.ofTable? with
      | some settings => .ok settings
      | none => .error Settings.unreadable) ∧
    (∀ vars vars', (∀ n ∈ T.names, vars n = vars' n) → fillPlaceholders vars t = fillPlaceholders vars' t) ∧
    (∀ vars, (∀ n ∈ T.names, vars n = none) → fillPlaceholders vars t = t) ∧
    ∀ entries : List (Text × Text), (∀ e ∈ entries, '=' ∉ e.1) →
      ((∀ n ∈ T.names, '=' ∉ n) → fillPlaceholders (Variables.ofEntries entries) t = T.fill (entries.lookup ·)) ∧
      ∀ key m, '=' ∉ key → Variables.ofEntries entries (key ++ '=' :: m) =
        entries.findSome? fun e => if e.1 = key then dropLead? (m ++ ['=']) e.2 else none := by
  have hfill := fun vars => Template.fillPlaceholders_eq vars t
  have htext : (Template.ofText t).toText = t := (Template.parts_ofText t).toText_eq
  refine ⟨Template.ofText t, fun T' => Template.parts_iff, htext, fun vars => ⟨hfill vars, ?_⟩, fun vars vars' h => ?_,
    fun vars h => ?_, fun entries hentries => ⟨fun hnames => ?_, fun key m hkey => ?_⟩⟩
  · rw [← hfill]
    rfl
  · rw [hfill, hfill, Template.fill_congr h]
  · rw [hfill, Template.fill_of_forall_eq_none h, htext]
  · rw [hfill, Template.fill_congr fun n hn => Variables.ofEntries_eq_lookup hentries (hnames n hn)]
  · exact Variables.ofEntries_append_cons hentries hkey m

/-- A value that looks like a placeholder is left alone. -/
theorem fillPlaceholders_nested :
    fillPlaceholders (Variables.ofEntries [("X", "$\x7bY\x7d"), ("Y", "1")]) "a$\x7bX\x7d$\x7bZ\x7d" =
      "a$\x7bY\x7d$\x7bZ\x7d".toList ∧
    fillPlaceholders (Variables.ofEntries [("Y", "1")]) "a$\x7bX\x7d$\x7bZ\x7d" = "a$\x7bX\x7d$\x7bZ\x7d".toList ∧
    fillPlaceholders (Variables.ofEntries [("X", "2"), ("Y", "1")]) "a$\x7bX\x7d$\x7bZ\x7d" =
      fillPlaceholders (Variables.ofEntries [("X", "2")]) "a$\x7bX\x7d$\x7bZ\x7d" := by
  obtain ⟨T, hparts, -, -, hvars, hnone, hentries⟩ := fillPlaceholders_template "a$\x7bX\x7d$\x7bZ\x7d"
  obtain rfl := (hparts _).mp (Template.parts_ofText _)
  exact ⟨(hentries [("X", "$\x7bY\x7d"), ("Y", "1")] (by decide)).1 (by decide), hnone _ (by decide),
    hvars _ _ (by decide)⟩

/-- A line with two equals signs gives a value to a name that no variable has. -/
theorem fillPlaceholders_ne_fill_lookup :
    (Template.more [] "A=B" (.last [])).Parts "$\x7bA=B\x7d" ∧ [("A".toList, "B=c".toList)].lookup "A=B".toList = none ∧
      (Template.more [] "A=B" (.last [])).fill ([("A".toList, "B=c".toList)].lookup ·) = "$\x7bA=B\x7d".toList ∧
      fillPlaceholders (Variables.ofEntries [("A", "B=c")]) "$\x7bA=B\x7d" = "c".toList :=
  ⟨Template.parts_iff.mpr (by decide), by decide, by decide, by decide⟩

end EndpointAtlas
