import EndpointAtlas.BackendCall.FromSource
import EndpointAtlas.Proofs.Text.Ways
import EndpointAtlas.Proofs.Text.Words

/-! The router of a definition: a service, an operation behind it, and a version behind that, whatever stands between
    them. The three markers are one pattern with two gaps, and the search for it may go on to later markers when what
    follows a marker fits no way. It never has to: each marker is the first one behind the marker before. -/

namespace EndpointAtlas.BackendCall
open Text

/-! ### Routers -/

/-- A backend version as it is written: between two quotes of either kind, or as a bare word. -/
inductive WrittenVersion where
  | literal (s : Text)
  | identifier (w : Text)
  deriving DecidableEq, Repr

namespace WrittenVersion

/-- The version without its quotes. -/
def text : WrittenVersion → Text
  | literal s => s
  | identifier w => w

/-- The version stands at the beginning of a text. -/
def StandsAt : Pattern WrittenVersion
  | literal s, t, rest => (Quoted '"' s t rest ∨ Quoted '\'' s t rest) ∧ s ≠ []
  | identifier w, t, rest => IsWord w ∧ endsWord rest = true ∧ t = w ++ rest

end WrittenVersion

/-- The marker of a service, and the name in quotes behind it, which is not empty. -/
def ServiceAt : Pattern Text := Behind "micro_service:" fun s t rest => Quoted '"' s t rest ∧ s ≠ []

/-- The marker of an operation, and the name in quotes behind it. -/
def OperationAt : Pattern Text := Behind "operation:" (Quoted '"')

/-- The marker of a version, and what is written behind it. -/
def VersionAt : Pattern WrittenVersion := Behind "backend_ver:" WrittenVersion.StandsAt

/-- What stands at the markers of a router. -/
structure Router where
  service : Text
  operation : Text
  version : WrittenVersion
  deriving DecidableEq, Repr

/-- The route of a router in a file that declares the version `fileVersion`. -/
def Router.route (fileVersion : Text) (r : Router) : Route :=
  ⟨r.service, r.operation, resolveVersion fileVersion r.version.text⟩

/-- The first service of a block, the first operation behind it, and the first version behind that. -/
def DeclaresRouter (block : Text) (r : Router) : Prop := ∃ t u rest, ReadsFirst ServiceAt block r.service t ∧
  ReadsFirst OperationAt t r.operation u ∧ ReadsFirst VersionAt u r.version rest

/-! ### The pattern of a router -/

/-- All ways to take the marker of a service. -/
def serviceWays : Ways Text := Ways.behind "micro_service:" (Ways.quoted '"' (Ways.many₁ (· != '"')))

/-- All ways to take the marker of an operation. -/
def operationWays : Ways Text := Ways.behind "operation:" (Ways.quoted '"' (Ways.many (· != '"')))

/-- All ways to take the marker of a version. -/
def versionWays : Ways Text := Ways.behind "backend_ver:" (Ways.orElse (Ways.quoted '"' (Ways.many₁ (· != '"')))
  (Ways.orElse (Ways.quoted '\'' (Ways.many₁ (· != '\''))) (Ways.many₁ isWordChar)))

/-- All ways to take the three markers, with any gaps between them. -/
def routerWays : Ways (Text × Text × Text) := serviceWays.inOrder (operationWays.inOrder versionWays)

/-! ### Reading the markers -/

variable {block t rest : Text} {before : Option Char}

theorem reads_readService? : Reads readService? ServiceAt := by
  intro before t s rest
  refine behind_iff (f := fun t => quoted? '"' t >>= nonempty?) (fun c x hc => ?_) ?_
  · rw [quoted?_cons_of_isBlank rfl hc]
    rfl
  · intro t s rest
    rw [bind_nonempty?_eq_some_iff, quoted?_eq_some_iff]

theorem reads_readOperation? : Reads readOperation? OperationAt :=
  behind_iff (fun _ x hc => quoted?_cons_of_isBlank rfl hc x) fun _ _ _ => quoted?_eq_some_iff

/-- The version in front of a text, a literal if it can be read as one. -/
def written? (t : Text) : Option (WrittenVersion × Text) :=
  ((anyQuoted? t >>= nonempty?).map fun x => (WrittenVersion.literal x.1, x.2)) <|>
    (word? t).map fun x => (WrittenVersion.identifier x.1, x.2)

/-- Reads a version as it is written. -/
def readWritten? : Reader WrittenVersion := fun _ t =>
  (dropLead? "backend_ver:" t).bind fun t => written? (trimStart t)

theorem readVersion?_eq (before : Option Char) (t : Text) :
    readVersion? before t = (readWritten? before t).map fun x => (x.1.text, x.2) := by
  rw [readVersion?, readWritten?]
  cases dropLead? "backend_ver:" t with
  | none => rfl
  | some t =>
    show (anyQuoted? (trimStart t) >>= nonempty? <|> word? (trimStart t)) = (written? (trimStart t)).map _
    rw [written?]
    cases anyQuoted? (trimStart t) >>= nonempty? with
    | some x => rfl
    | none => cases word? (trimStart t) <;> rfl

theorem anyQuoted?_of_isWord {w : Text} (h : IsWord w) (t : Text) : anyQuoted? (w ++ t) = none := by
  obtain ⟨c, w, rfl⟩ := List.exists_cons_of_ne_nil h.1
  have hc : isWordChar c = true := h.2 c List.mem_cons_self
  refine anyQuoted?_cons_of_ne ?_ ?_ _
  all_goals
    rintro rfl
    cases hc

theorem anyQuoted?_cons_of_isBlank {c : Char} (hc : isBlank c = true) (t : Text) : anyQuoted? (c :: t) = none := by
  refine anyQuoted?_cons_of_ne ?_ ?_ t
  all_goals
    rintro rfl
    cases hc

theorem word?_cons_of_isBlank {c : Char} (hc : isBlank c = true) (t : Text) : word? (c :: t) = none := by
  rw [word?, List.takeWhile_cons_of_neg (by rw [isWordChar_of_isBlank hc]; exact Bool.false_ne_true)]

theorem reads_readWritten? : Reads readWritten? VersionAt := by
  intro before t v rest
  refine behind_iff (fun c x hc => ?_) ?_
  · rw [written?, anyQuoted?_cons_of_isBlank hc, word?_cons_of_isBlank hc]
    rfl
  · intro t v rest
    rw [written?, orElse_eq_some_iff, Option.map_eq_some_iff, Option.map_eq_some_iff]
    cases v with
    | literal s =>
      simp only [Prod.exists, Prod.mk.injEq, WrittenVersion.literal.injEq, reduceCtorEq, false_and, and_false,
        exists_false, or_false, exists_eq_right_right, exists_eq_right, WrittenVersion.StandsAt,
        bind_nonempty?_eq_some_iff, anyQuoted?_eq_some_iff]
    | identifier w =>
      simp only [Prod.exists, Prod.mk.injEq, WrittenVersion.identifier.injEq, reduceCtorEq, false_and, and_false,
        exists_false, false_or, exists_eq_right_right, exists_eq_right, WrittenVersion.StandsAt, word?_eq_some_iff]
      refine and_iff_right_of_imp ?_
      rintro ⟨hword, -, rfl⟩
      rw [anyQuoted?_of_isWord hword]
      rfl

/-! ### Searching for a router -/

theorem serviceWays_eq (before : Option Char) (t : Text) : serviceWays t = (readService? before t).toList :=
  Ways.behind_eq_toList (Ways.quoted_many₁ '"') (fun _ x hc => by rw [quoted?_cons_of_isBlank rfl hc x]; rfl) _ t

theorem operationWays_eq (before : Option Char) (t : Text) : operationWays t = (readOperation? before t).toList :=
  Ways.behind_eq_toList (Ways.quoted_many '"') (fun _ x hc => quoted?_cons_of_isBlank rfl hc x) _ t

theorem anyQuoted?_bind_nonempty? (t : Text) : (anyQuoted? t >>= nonempty?) =
    (quoted? '"' t >>= nonempty?).or (quoted? '\'' t >>= nonempty?) := by
  unfold anyQuoted?
  split
  · rfl
  · exact (Option.or_none).symm
  · next hsingle hdouble =>
    have hnone : ∀ q, (∀ x, t ≠ q :: x) → quoted? q t = none := fun q hq => by
      cases t with
      | nil => rfl
      | cons c t =>
        rw [quoted?, dropLead?, if_neg fun h => hq t (by rw [h])]
        rfl
    rw [hnone _ hdouble, hnone _ hsingle]
    rfl

/-- A word may be taken in several ways; the longest is the first. -/
theorem reader_versionWays : versionWays.reader = readVersion? := by
  funext before t
  have hways : ∀ t, (Ways.orElse (Ways.quoted '"' (Ways.many₁ (· != '"')))
      (Ways.orElse (Ways.quoted '\'' (Ways.many₁ (· != '\''))) (Ways.many₁ isWordChar)) t).head? =
      ((anyQuoted? t >>= nonempty?) <|> word? t) := fun t => by
    rw [Ways.orElse, Ways.orElse, List.head?_append, List.head?_append, Ways.quoted_many₁, Ways.quoted_many₁,
      Ways.head?_many₁_isWordChar, Option.head?_toList, Option.head?_toList, anyQuoted?_bind_nonempty?,
      Option.orElse_eq_orElse, Option.orElse_eq_or, Option.or_assoc]
  show (versionWays t).head? = _
  rw [versionWays, Ways.behind_apply _ fun c u hc => ?_]
  · rw [readVersion?]
    cases dropLead? "backend_ver:" t with
    | none => rfl
    | some t => rw [Option.toList_some, List.flatMap_singleton, hways]; rfl
  · rw [← List.head?_eq_none_iff, hways, anyQuoted?_cons_of_isBlank hc, word?_cons_of_isBlank hc]
    rfl

theorem endsLater_readService? : EndsLater readService? := by
  refine @endsLater_of_quoted _ "micro_service:" '"' (by decide) rfl fun before t s rest hread => ?_
  obtain ⟨blanks, u, ht, hblanks, hquoted, -⟩ := reads_readService?.mp hread
  exact ⟨blanks, u, ht, hblanks, hquoted⟩

theorem endsLater_readOperation? : EndsLater readOperation? :=
  @endsLater_of_quoted _ "operation:" '"' (by decide) rfl fun _ _ _ _ => reads_readOperation?.mp

/-! ### The first router -/

/-- What is found where each marker is looked for behind the one before. -/
def router? (block : Text) : Option Router := do
  let (service, t) ← find? readService? none block
  let (operation, t) ← find? readOperation? none t
  let (version, _) ← find? readWritten? none t
  return ⟨service, operation, version⟩

theorem router?_eq_some_iff {r : Router} : router? block = some r ↔ DeclaresRouter block r := by
  simp only [router?, Option.bind_eq_bind, Option.bind_eq_some_iff, Prod.exists,
    reads_readService?.find?_eq_some_iff, reads_readOperation?.find?_eq_some_iff, reads_readWritten?.find?_eq_some_iff]
  constructor
  · rintro ⟨service, t, hservice, operation, u, hoperation, version, rest, hversion, hr⟩
    cases hr
    exact ⟨t, u, _, hservice, hoperation, hversion⟩
  · rintro ⟨t, u, rest, hservice, hoperation, hversion⟩
    exact ⟨r.service, t, hservice, r.operation, u, hoperation, r.version, rest, hversion, rfl⟩

instance (block : Text) (r : Router) : Decidable (DeclaresRouter block r) :=
  decidable_of_iff (router? block = some r) router?_eq_some_iff

theorem find?_readVersion? (t : Text) :
    find? readVersion? none t = (find? readWritten? none t).map fun x => (x.1.text, x.2) := by
  rw [← find?_map]
  exact congrArg (find? · none t) (funext fun before => funext (readVersion?_eq before))

/-- The search for the whole pattern takes each marker where it is found first. -/
theorem first?_routerWays (block : Text) : first? routerWays.reader block =
    (router? block).map fun r => (r.service, r.operation, r.version.text) := by
  rw [first?, routerWays, find?_inOrder serviceWays_eq endsLater_readService?, router?]
  simp only [find?_inOrder operationWays_eq endsLater_readOperation?, reader_versionWays, find?_readVersion?]
  cases find? readService? none block with
  | none => rfl
  | some x =>
    show (((find? readOperation? none x.2).bind _).map _).map _ = ((find? readOperation? none x.2).bind _).map _
    cases find? readOperation? none x.2 with
    | none => rfl
    | some y =>
      show ((((find? readWritten? none y.2).map _).map _).map _).map _ = ((find? readWritten? none y.2).bind _).map _
      cases find? readWritten? none y.2 <;> rfl

theorem routeOf?_eq (fileVersion block : Text) :
    routeOf? fileVersion block = (router? block).map (Router.route fileVersion) := by
  rw [routeOf?, router?]
  cases find? readService? none block with
  | none => rfl
  | some x =>
    show (find? readOperation? none x.2).bind _ = ((find? readOperation? none x.2).bind _).map _
    cases find? readOperation? none x.2 with
    | none => rfl
    | some y =>
      show (find? readVersion? none y.2).bind _ = ((find? readWritten? none y.2).bind _).map _
      rw [find?_readVersion?]
      cases find? readWritten? none y.2 <;> rfl

/-- The route of a block is read off its first service, the first operation behind that, and the first version behind
    that, and there is none if one of the three is missing. A search that may give a marker up for a later one finds
    the same. -/
theorem route_is_first_in_sequence (version fileVersion block : Text) :
    let call := ofBlock version fileVersion block
    (∃ r, (∀ r', DeclaresRouter block r' ↔ r' = r) ∧
      first? routerWays.reader block = some (r.service, r.operation, r.version.text) ∧
      routeOf? fileVersion block = some (r.route fileVersion) ∧
      call.microService = r.service ∧ call.operation = r.operation ∧
      call.backendVersion = resolveVersion fileVersion r.version.text ∧
      call.routerEndpoint = (r.route fileVersion).path) ∨
    ((∀ r, ¬ DeclaresRouter block r) ∧ first? routerWays.reader block = none ∧ routeOf? fileVersion block = none ∧
      call.microService = [] ∧ call.operation = [] ∧ call.backendVersion = [] ∧ call.routerEndpoint = []) := by
  intro call
  have hroute := routeOf?_eq fileVersion block
  have hsearch := first?_routerWays block
  cases hr : router? block with
  | some r =>
    rw [hr] at hroute hsearch
    refine Or.inl ⟨r, fun r' => ?_, hsearch, hroute, ?_⟩
    · rw [← router?_eq_some_iff, hr, Option.some.injEq, eq_comm]
    · simp only [call, ofBlock, hroute]
      exact ⟨rfl, rfl, rfl, rfl⟩
  | none =>
    rw [hr] at hroute hsearch
    refine Or.inr ⟨fun r hdeclares => ?_, hsearch, hroute, ?_⟩
    · rw [← router?_eq_some_iff, hr] at hdeclares
      cases hdeclares
    · simp only [call, ofBlock, hroute]
      exact ⟨rfl, rfl, rfl, rfl⟩

/-- An operation inside the name of the service, a service without a name, and an operation out of order. -/
example :
    let block : Text := joinWith "\n" ["operation: \"out\", micro_service: \"\"", "micro_service:", "  \"a operation:\"",
      "operation: 'x', operation: \"\"", "micro_service: \"b\"", "backend_ver: \"\", backend_ver: '2'"]
    routeOf? "V1" block = some ⟨"a operation:", "", "2"⟩ := by
  decide

end EndpointAtlas.BackendCall
