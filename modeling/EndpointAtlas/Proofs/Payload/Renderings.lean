import EndpointAtlas.Payload
import EndpointAtlas.Proofs.Json.RoundTrip
import EndpointAtlas.Proofs.Keyed
import EndpointAtlas.Proofs.Payload.Declarations

/-! The two renderings of a payload, read back. The query string keeps every declaration as a pair, and the JSON object
    keeps each name once, with the sample of its last pair: the object can be told from the query string alone. -/

namespace EndpointAtlas.Payload
open Text Parameter

variable {p : Parameter} {ps : List Parameter} {text name : Text}

/-! ### Reading a query string -/

/-- What stands before and behind the equals sign of a text that holds one. -/
def pair? (piece : Text) : Option (Text × Text) :=
  match splitOn '=' piece with
  | [name, literal] => some (name, literal)
  | _ => none

/-- The pairs of a query string. -/
def pairs? (query : Text) : Option (List (Text × Text)) :=
  if query = [] then some [] else (splitOn '&' query).mapM pair?

/-- The pair that a parameter is written as. -/
def pair (p : Parameter) : Text × Text := (p.name, p.sample.literal)

/-- The text of the pair that a parameter is written as. -/
def pairText (p : Parameter) : Text := p.name ++ "=" ++ p.sample.literal

theorem pairText_ne_nil (p : Parameter) : pairText p ≠ [] := by
  simp [pairText]

theorem not_mem_literal (s : Sample) : '&' ∉ s.literal ∧ '=' ∉ s.literal := by
  cases s <;> decide

theorem not_mem_pairText (h : IsWord p.name) : '&' ∉ pairText p := by
  rw [pairText]
  refine List.not_mem_append (List.not_mem_append (h.not_mem rfl) ?_) (not_mem_literal p.sample).1
  decide

theorem pair?_pairText (h : IsWord p.name) : pair? (pairText p) = some (pair p) := by
  have hsplit : splitOn '=' (pairText p) = [p.name, p.sample.literal] := by
    rw [pairText, List.append_assoc, show ("=" : Text) ++ p.sample.literal = '=' :: p.sample.literal from rfl,
      splitOn_append_cons (h.not_mem rfl), splitOn_of_not_mem (not_mem_literal p.sample).2]
  rw [pair?, hsplit]
  rfl

theorem query_eq_nil_iff : query ps = [] ↔ ps = [] := by
  constructor
  · intro h
    cases ps with
    | nil => rfl
    | cons p ps =>
      rw [query, List.map_cons, joinWith_cons_eq_flatMap, List.append_eq_nil_iff] at h
      exact absurd h.1 (pairText_ne_nil p)
  · rintro rfl
    rfl

theorem mapM_pair? (h : ∀ p ∈ ps, IsWord p.name) : (ps.map pairText).mapM pair? = some (ps.map pair) := by
  induction ps with
  | nil => rfl
  | cons p ps ih =>
    obtain ⟨hp, hps⟩ := List.forall_mem_cons.mp h
    rw [List.map_cons, List.mapM_cons, pair?_pairText hp, ih hps]
    rfl

/-- Names and literals hold no sign that separates them, and so the pairs are found again. -/
theorem pairs?_query (h : ∀ p ∈ ps, IsWord p.name) : pairs? (query ps) = some (ps.map pair) := by
  rw [pairs?]
  by_cases hps : ps = []
  · subst hps
    rfl
  · have hpieces : ∀ piece ∈ ps.map pairText, '&' ∉ piece := fun piece hpiece => by
      obtain ⟨p, hp, rfl⟩ := List.mem_map.mp hpiece
      exact not_mem_pairText (h p hp)
    have hsplit : splitOn '&' (query ps) = ps.map pairText :=
      splitOn_joinWith (mt List.map_eq_nil_iff.mp hps) hpieces
    rw [if_neg (mt query_eq_nil_iff.mp hps), hsplit, mapM_pair? h]

/-! ### Reading a body -/

theorem isValid_json (s : Sample) : s.json.isValid = true := by
  cases s <;> rfl

theorem fieldsAreValid_body (l : Keyed Text Sample) :
    Json.fieldsAreValid (l.map fun x => (x.1, x.2.json)) = true := by
  induction l with
  | nil => rfl
  | cons x l ih => exact Bool.and_eq_true_iff.mpr ⟨isValid_json x.2, ih⟩

theorem body_eq (ps : List Parameter) : body ps = .object ((fields ps).map fun x => (x.1, x.2.json)) := rfl

theorem ofText?_body (ps : List Parameter) :
    Json.ofText? (body ps).pretty = some (.object ((fields ps).map fun x => (x.1, x.2.json))) :=
  Json.ofText?_pretty (fieldsAreValid_body (fields ps))

theorem literal_injective : Function.Injective Sample.literal := by
  intro s s' h
  cases s <;> cases s' <;> first | rfl | exact absurd h (by decide)

theorem isLast_pair {s : Sample} : Keyed.IsLast (ps.map pair) name s.literal ↔
    Keyed.IsLast (ps.map fun p => (p.name, p.sample)) name s := by
  have hpairs : ps.map pair = (ps.map fun p => (p.name, p.sample)).map fun x => (x.1, Sample.literal x.2) := by
    rw [List.map_map]
    rfl
  rw [← Keyed.get?_ofList_eq_some_iff, hpairs, Keyed.ofList_map, Keyed.get?_map, Option.map_eq_some_iff,
    ← Keyed.get?_ofList_eq_some_iff]
  constructor
  · rintro ⟨s', hs', heq⟩
    rwa [literal_injective heq] at hs'
  · exact fun hs => ⟨s, hs, rfl⟩

theorem get?_fields {value : Json} : Keyed.get? name ((fields ps).map fun x => (x.1, x.2.json)) = some value ↔
    ∃ s : Sample, Keyed.IsLast (ps.map pair) name s.literal ∧ value = s.json := by
  rw [Keyed.get?_map, Option.map_eq_some_iff]
  refine exists_congr fun s => ?_
  rw [isLast_pair, ← Keyed.get?_ofList_eq_some_iff, eq_comm (a := value)]
  exact Iff.rfl

theorem keys_fields (ps : List Parameter) :
    Keyed.keys ((fields ps).map fun x => (x.1, x.2.json)) = ((ps.map pair).map (·.1)).eraseDups := by
  have hinst : (instBEqOfDecidableEq : BEq Text) = List.instBEq := lawful_beq_subsingleton _ _
  rw [Keyed.keys_map, fields, Keyed.keys_ofList, hinst, List.map_map, List.map_map]
  rfl

/-! ### The two renderings -/

theorem isWord_name_of_declares {l : Text} (h : Declares l p) : IsWord p.name := by
  obtain ⟨-, -, -, -, ⟨d, -, -, rfl⟩, -⟩ := h
  exact d.isWord_name

theorem isWord_name_of_mem (hp : p ∈ Parameter.ofText text) : IsWord p.name := by
  obtain ⟨l, -, hl⟩ := List.mem_filterMap.mp hp
  exact isWord_name_of_declares (ofLine?_eq_some_iff.mp hl)

theorem parameters_eq_nil_iff : Parameter.ofText text = [] ↔ ∀ l ∈ lines text, ∀ p, ¬ Declares l p := by
  simp only [Parameter.ofText, List.filterMap_eq_nil_iff, Option.eq_none_iff_forall_ne_some, ne_eq, ofLine?_eq_some_iff]

theorem ofText_some (text : Text) (m : HttpMethod) :
    ofText text (some m) =
      if m = .get then query (Parameter.ofText text) else (body (Parameter.ofText text)).pretty := by
  cases m <;> rfl

/-- The query string has one pair for each line that declares a parameter. The body is a JSON object with a field for
    each name among the pairs, in the order in which the names come first, and the value of a field belongs to the
    literal of the last pair with its name. -/
theorem query_and_body_agree (text : Text) : ∃ ps pairs fields,
    (∀ ps', AreDeclared (lines text) ps' ↔ ps' = ps) ∧
    (∀ m, ofText text (some m) = if m = .get then ofText text none else ofText text (some .post)) ∧
    pairs? (ofText text none) = some pairs ∧ pairs = ps.map (fun p => (p.name, p.sample.literal)) ∧
    (ofText text none = [] ↔ ∀ l ∈ lines text, ∀ p, ¬ Declares l p) ∧
    Json.ofText? (ofText text (some .post)) = some (.object fields) ∧
    Keyed.keys fields = (pairs.map (·.1)).eraseDups ∧
    ∀ name value, Keyed.get? name fields = some value ↔
      ∃ s : Sample, Keyed.IsLast pairs name s.literal ∧ value = s.json := by
  let ps := Parameter.ofText text
  have hquery : ofText text none = query ps := rfl
  have hbody : ofText text (some .post) = (body ps).pretty := rfl
  refine ⟨ps, ps.map pair, (fields ps).map fun x => (x.1, x.2.json), ?_, ?_, ?_, rfl, ?_, ?_, ?_, ?_⟩
  · exact fun ps' => areDeclared_iff.trans eq_comm
  · intro m
    rw [ofText_some, hquery, hbody]
  · rw [hquery]
    exact pairs?_query fun p hp => isWord_name_of_mem hp
  · rw [hquery, query_eq_nil_iff]
    exact parameters_eq_nil_iff
  · rw [hbody]
    exact ofText?_body ps
  · exact keys_fields ps
  · exact fun name value => get?_fields

/-- A name that is declared twice. -/
example :
    let text : Text := joinWith "\n"
      ["optional :a, type: String", "requires :b, type: Integer", "optional :a, type: Float"]
    ofText text none = "a=example&b=123&a=1.23" ∧
      ofText text (some .put) = joinWith "\n" ["\x7b", "  \"a\": 1.23,", "  \"b\": 123", "\x7d"] := by
  decide +kernel

end EndpointAtlas.Payload
