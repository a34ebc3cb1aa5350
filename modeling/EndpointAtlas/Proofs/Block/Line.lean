import EndpointAtlas.Block.Line
import EndpointAtlas.Proofs.Text.Blank
import EndpointAtlas.Proofs.Text.Find

/-! What the lines of a routing file look like, told by their characters and not by the functions that
    recognise them. Each kind of line is recognised as its own kind, and as no kind that is asked for
    before it; and what is recognised as one is of that kind. -/

namespace EndpointAtlas.Line
open Text

variable {l : Text}

/-- `l` is a comment, or nothing but blanks. -/
def IsSilent (l : Text) : Prop := trim l = [] ∨ (trim l).head? = some '#'

instance : DecidablePred IsSilent := fun _ => inferInstanceAs (Decidable (_ ∨ _))

/-- `l` opens a resource under `name`. -/
def IsOpening (l name : Text) : Prop :=
  trim l = "resource :" ++ name ++ " do" ∧ name ≠ [] ∧ ∀ c ∈ name, isWordChar c = true

/-- `l` opens a resource, whatever stands behind the word for it. -/
def IsStructural (l : Text) : Prop :=
  ∃ (c : Char) (t : Text), isBlank c = true ∧
    (trim l = "resources" ++ c :: t ∨ trim l = "resource" ++ c :: t ∨ trim l = "namespace" ++ c :: t)

/-- `l` is a bare `end` that is indented by at most `limit` columns. -/
def IsClosing (limit : Nat) (l : Text) : Prop := trim l = "end" ∧ indentWidth l ≤ limit

/-- `l` declares an endpoint. -/
def IsDesc (l : Text) : Prop := ∃ t, trim l = "desc " ++ t

/-- `l` declares an endpoint or opens a resource. -/
def IsBoundary (l : Text) : Prop := IsDesc l ∨ IsStructural l

/-- `l` begins with `params do`, both as whole words. -/
def IsParams (l : Text) : Prop :=
  ∃ blanks t, trim l = "params" ++ blanks ++ "do" ++ t ∧ blanks ≠ [] ∧ (∀ c ∈ blanks, isBlank c = true) ∧
    endsWord t = true

/-- `l` begins with a routing verb as a whole word. -/
def IsVerb (l : Text) : Prop := ∃ (m : HttpMethod) (t : Text), trim l = m.verb ++ t ∧ endsWord t = true

/-! ### Resources -/

theorem scopeName?_of_isOpening {name : Text} (h : IsOpening l name) : scopeName? (trim l) = some name := by
  obtain ⟨ht, hne, hword⟩ := h
  have hlead : scopeName? ("resource :" ++ name ++ " do") = some (scopeNameOf (':' :: (name ++ " do"))) := rfl
  have hname : word? (name ++ (" do" : Text)) = some (name, (" do" : Text)) := word?_append hne hword rfl
  rw [ht, hlead, scopeNameOf, hname]
  cases name with
  | nil => exact absurd rfl hne
  | cons c name => rfl

theorem silent_cases (h : IsSilent l) : trim l = [] ∨ ∃ t, trim l = '#' :: t :=
  h.imp_right List.head?_eq_some_iff.mp

theorem scopeName?_of_isSilent (h : IsSilent l) : scopeName? (trim l) = none := by
  rcases silent_cases h with h | ⟨t, h⟩
  · rw [h]
    rfl
  · rw [h]
    rfl

theorem ne_end_of_isSilent (h : IsSilent l) : trim l ≠ "end" := by
  rcases silent_cases h with h | ⟨t, h⟩
  · rw [h]
    exact fun hend => by cases hend
  · rw [h]
    exact fun hend => by cases hend

theorem isDeclaration_of_isSilent (h : IsSilent l) : isDeclaration (trim l) = false := by
  rcases silent_cases h with h | ⟨t, h⟩
  · rw [h]
    rfl
  · rw [h]
    rfl

theorem scopeName?_of_isClosing {limit : Nat} (h : IsClosing limit l) : scopeName? (trim l) = none := by
  rw [h.1]
  rfl

theorem scopeName?_of_isDesc (h : IsDesc l) : scopeName? (trim l) = none := by
  obtain ⟨t, h⟩ := h
  rw [h]
  rfl

theorem isDeclaration_iff : isDeclaration (trim l) = true ↔ IsDesc l := by
  rw [isDeclaration, startsWith, Option.isSome_iff_exists]
  exact exists_congr fun t => dropLead?_eq_some_iff

theorem isDeclaration_of_isDesc (h : IsDesc l) : isDeclaration (trim l) = true := isDeclaration_iff.mpr h

theorem ne_end_of_isDesc (h : IsDesc l) : trim l ≠ "end" := by
  obtain ⟨t, h⟩ := h
  rw [h]
  exact fun hend => by cases hend

theorem isSilent_of_isSilent (h : IsSilent l) : isSilent (trim l) = true := by
  rcases silent_cases h with h | ⟨t, h⟩
  · rw [h]
    rfl
  · rw [h]
    rfl

theorem isSilent_of_isParams (h : IsParams l) : isSilent (trim l) = false := by
  obtain ⟨blanks, t, h, -⟩ := h
  rw [h]
  rfl

theorem opensParams_of_isParams (h : IsParams l) : opensParams (trim l) = true := by
  obtain ⟨blanks, t, h, hne, hblank, hend⟩ := h
  have hblanks : blanks? (blanks ++ ("do" ++ t)) = some ("do" ++ t) :=
    blanks?_append hne hblank fun c hc => by
      cases hc
      rfl
  have hlead : dropLead? "params" (trim l) = some (blanks ++ ("do" ++ t)) :=
    dropLead?_eq_some_iff.mpr (by rw [h]; simp)
  have hdo : dropLead? "do" ("do" ++ t) = some t := dropLead?_eq_some_iff.mpr rfl
  rw [opensParams, hlead]
  simp only [Option.bind_eq_bind, Option.bind_some, hblanks, hdo]
  exact hend

theorem isSilent_of_isVerb (h : IsVerb l) : isSilent (trim l) = false := by
  obtain ⟨m, t, h, -⟩ := h
  rw [h]
  cases m <;> rfl

theorem opensParams_of_isVerb (h : IsVerb l) : opensParams (trim l) = false := by
  obtain ⟨m, t, h, -⟩ := h
  rw [h]
  cases m <;> rfl

theorem handlerMethod?_of_isVerb (h : IsVerb l) : (handlerMethod? (trim l)).isSome = true := by
  obtain ⟨m, t, h, hend⟩ := h
  have hread : HttpMethod.read? (m.verb ++ t) = some (m, t) := by cases m <;> rfl
  rw [h, handlerMethod?, hread]
  simp only [Option.bind_eq_bind, Option.bind_some, hend]
  rfl

/-! ### What was recognised -/

theorem isSome_dropLead?_bind_blanks? {lead t : Text} : (dropLead? lead t >>= blanks?).isSome = true ↔
    ∃ c rest, isBlank c = true ∧ t = lead ++ c :: rest := by
  rw [Option.isSome_iff_exists]
  constructor
  · rintro ⟨rest, h⟩
    obtain ⟨u, hlead, hblanks⟩ := Option.bind_eq_some_iff.mp h
    obtain ⟨blanks, rfl, hne, hblank⟩ := eq_of_blanks? hblanks
    obtain ⟨c, blanks, rfl⟩ := List.exists_cons_of_ne_nil hne
    exact ⟨c, blanks ++ rest, hblank c List.mem_cons_self, dropLead?_eq_some_iff.mp hlead⟩
  · rintro ⟨c, rest, hc, rfl⟩
    refine ⟨trimStart rest, Option.bind_eq_some_iff.mpr ⟨c :: rest, dropLead?_eq_some_iff.mpr rfl, ?_⟩⟩
    rw [blanks?, if_pos hc]

theorem isSome_scopeName?_iff : (scopeName? (trim l)).isSome = true ↔ IsStructural l := by
  have hpure : ∀ o : Option Text, (o >>= fun rest => pure (scopeNameOf rest)).isSome = o.isSome := fun o => by
    cases o <;> rfl
  have horElse : ∀ o o' : Option Text, (o <|> o').isSome = (o.isSome || o'.isSome) := fun o o' => by cases o <;> rfl
  rw [scopeName?, hpure, horElse, horElse, Bool.or_eq_true, Bool.or_eq_true, isSome_dropLead?_bind_blanks?,
    isSome_dropLead?_bind_blanks?, isSome_dropLead?_bind_blanks?, IsStructural]
  simp only [and_or_left, exists_or]

theorem isBoundary_iff : isBoundary (trim l) = true ↔ IsBoundary l := by
  rw [isBoundary, Bool.or_eq_true, isDeclaration_iff, isSome_scopeName?_iff, IsBoundary]

theorem isBoundary_of_isOpening {name : Text} (h : IsOpening l name) : IsBoundary l := by
  refine Or.inr ⟨' ', ':' :: (name ++ " do"), rfl, Or.inr (Or.inl ?_)⟩
  rw [h.1]
  rfl

/-- An open block asks for nothing that the `end` of a resource is. -/
theorem unasked_of_isClosing {limit : Nat} (h : IsClosing limit l) : isSilent (trim l) = false ∧
    opensParams (trim l) = false ∧ handlerMethod? (trim l) = none ∧ isBoundary (trim l) = false := by
  rw [h.1]
  exact ⟨rfl, rfl, rfl, rfl⟩

/-- A line that begins an endpoint or a resource is nothing that an open block asks for before that. -/
theorem unasked_of_isBoundary (h : IsBoundary l) :
    isSilent (trim l) = false ∧ opensParams (trim l) = false ∧ handlerMethod? (trim l) = none := by
  rcases h with ⟨t, h⟩ | ⟨c, t, -, h | h | h⟩
  all_goals
    rw [h]
    exact ⟨rfl, rfl, rfl⟩

theorem isParams_of_opensParams (h : opensParams (trim l) = true) : IsParams l := by
  obtain ⟨t, hread, hend⟩ := (Option.any_eq_true _ _).mp h
  obtain ⟨rest, hlead, hdo⟩ := Option.bind_eq_some_iff.mp hread
  obtain ⟨u, hparams, hblanks⟩ := Option.bind_eq_some_iff.mp hlead
  obtain ⟨blanks, rfl, hne, hblank⟩ := eq_of_blanks? hblanks
  refine ⟨blanks, t, ?_, hne, hblank, hend⟩
  rw [dropLead?_eq_some_iff.mp hparams, dropLead?_eq_some_iff.mp hdo, List.append_assoc, List.append_assoc]

theorem eq_verb_append_of_read? {m : HttpMethod} {t rest : Text} (h : HttpMethod.read? t = some (m, rest)) :
    t = m.verb ++ rest := by
  obtain ⟨w, hmem, rfl⟩ := exists_word_of_oneOf? h
  obtain ⟨m', -, heq⟩ := List.mem_map.mp hmem
  cases heq
  rfl

theorem isVerb_of_handlerMethod? (h : (handlerMethod? (trim l)).isSome = true) : IsVerb l := by
  obtain ⟨m, hm⟩ := Option.isSome_iff_exists.mp h
  obtain ⟨⟨m', rest⟩, hread, hend⟩ := Option.bind_eq_some_iff.mp hm
  dsimp only at hend
  split at hend
  · next hword => exact ⟨m', rest, eq_verb_append_of_read? hread, hword⟩
  · cases hend

end EndpointAtlas.Line
