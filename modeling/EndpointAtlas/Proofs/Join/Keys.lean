import EndpointAtlas.Mapping
import EndpointAtlas.Proofs.Block.Definitions
import EndpointAtlas.Proofs.Block.Line
import EndpointAtlas.Proofs.Join.Relation
import EndpointAtlas.Proofs.Text.Find
import EndpointAtlas.Proofs.Text.Words

/-! The keys under which extracted records meet. A definition block cannot be cut out without a name that is
    then read again, so a backend call always has a method; an endpoint whose handler calls nothing that is
    recognised names no method or no version, and such a key is under no backend call. -/

namespace EndpointAtlas
open Text

/-- `v` is a capital V and one or more decimal digits. -/
def IsVersion (v : Text) : Prop := ∃ digits, v = 'V' :: digits ∧ digits ≠ [] ∧ ∀ d ∈ digits, isDigitChar d = true

/-! ### What an endpoint calls -/

namespace Endpoint
variable {t rest v : Text} {before : Option Char}

theorem isVersion_eq_true_iff : isVersion v = true ↔ IsVersion v := by
  unfold isVersion
  split
  · next digits => simp [IsVersion]
  · next hne =>
    constructor
    · intro h
      cases h
    · rintro ⟨digits, rfl, -⟩
      exact absurd rfl (hne digits)

theorem isVersion_of_lastVersion? {fuel : Nat} (h : lastVersion? fuel t = some (v, rest)) : IsVersion v := by
  induction fuel generalizing t with
  | zero => cases h
  | succ fuel ih =>
    rw [lastVersion?] at h
    obtain ⟨⟨name, u⟩, -, h⟩ := Option.bind_eq_some_iff.mp h
    rcases orElse_eq_some_iff.mp h with h | ⟨-, h⟩
    · exact ih h
    · split at h
      · next hname =>
        cases h
        exact isVersion_eq_true_iff.mp hname
      · cases h

theorem isVersion_of_readVersionedPath? (h : readVersionedPath? t = some (v, rest)) : IsVersion v := by
  obtain ⟨_, -, h⟩ := Option.bind_eq_some_iff.mp h
  exact isVersion_of_lastVersion? h

theorem isVersion_of_readNamespace? (h : readNamespace? before t = some (v, rest)) : IsVersion v := by
  unfold readNamespace? at h
  split at h
  · exact isVersion_of_readVersionedPath? h
  · cases h

theorem isVersion_of_readHook? (h : readHook? before t = some (v, rest)) : IsVersion v := by
  obtain ⟨_, -, h⟩ := Option.bind_eq_some_iff.mp h
  obtain ⟨_, -, h⟩ := Option.bind_eq_some_iff.mp h
  obtain ⟨_, _, hread⟩ := exists_reading_of_find? h
  exact isVersion_of_readNamespace? hread

theorem isVersion_of_readCreateClient? (h : readCreateClient? before t = some (v, rest)) : IsVersion v := by
  obtain ⟨_, -, h⟩ := Option.bind_eq_some_iff.mp h
  exact isVersion_of_readVersionedPath? h

/-- Whichever pattern tells the version of a callee, it is a version. -/
theorem isVersion_of_calleeVersion? {block file : Text} (h : calleeVersion? block file = some v) :
    IsVersion v := by
  rcases orElse_eq_some_iff.mp h with h | ⟨-, h⟩
  · obtain ⟨_, _, _, hread⟩ := exists_reading_of_first? h
    exact isVersion_of_readHook? hread
  · rcases orElse_eq_some_iff.mp h with h | ⟨-, h⟩
    · obtain ⟨_, _, _, hread⟩ := exists_reading_of_first? h
      exact isVersion_of_readCreateClient? hread
    · obtain ⟨_, _, _, hread⟩ := exists_reading_of_first? h
      exact isVersion_of_readNamespace? hread

theorem isWord_of_readClientCall? (h : readClientCall? before t = some (v, rest)) : IsWord v := by
  unfold readClientCall? at h
  dsimp only at h
  split at h
  · cases h
  · obtain ⟨_, -, h⟩ := Option.bind_eq_some_iff.mp h
    exact (eq_of_word? h).1

theorem isWord_of_readClassCall? (h : readClassCall? before t = some (v, rest)) : IsWord v := by
  obtain ⟨⟨name, u⟩, -, h⟩ := Option.bind_eq_some_iff.mp h
  dsimp only at h
  split at h
  · cases h
  · obtain ⟨⟨method, u⟩, hword, h⟩ := Option.bind_eq_some_iff.mp h
    obtain ⟨_, -, hword⟩ := Option.bind_eq_some_iff.mp hword
    obtain ⟨_, -, h⟩ := Option.bind_eq_some_iff.mp h
    cases h
    exact (eq_of_word? hword).1

theorem isWord_of_calleeMethod? {block : Text} (h : calleeMethod? block = some v) : IsWord v := by
  rcases orElse_eq_some_iff.mp h with h | ⟨-, h⟩
  · obtain ⟨_, _, _, hread⟩ := exists_reading_of_first? h
    exact isWord_of_readClientCall? hread
  · obtain ⟨_, _, _, hread⟩ := exists_reading_of_first? h
    exact isWord_of_readClassCall? hread

end Endpoint

/-! ### What a definition defines -/

namespace BackendCall
variable {t unit version : Text} {blanks name more : Text}

/-- Behind `self.` a name is looked for first; where none follows, `self` is the name. -/
theorem exists_word_of_readName? (hne : blanks ≠ []) (hblank : ∀ c ∈ blanks, isBlank c = true)
    (hname : IsWord name) (before : Option Char) :
    ∃ w rest, readName? before ("def" ++ (blanks ++ (name ++ more))) = some (w, rest) ∧ IsWord w := by
  have hlead : dropLead? "def" ("def" ++ (blanks ++ (name ++ more))) = some (blanks ++ (name ++ more)) :=
    dropLead?_eq_some_iff.mpr rfl
  have hblanks : blanks? (blanks ++ (name ++ more)) = some (name ++ more) :=
    blanks?_append hne hblank (hname.isBlank_head more)
  have hboth : (some (blanks ++ (name ++ more)) >>= blanks?) = some (name ++ more) := hblanks
  have hread : readName? before ("def" ++ (blanks ++ (name ++ more))) =
      ((dropLead? "self." (name ++ more) >>= word?) <|> word? (name ++ more)) := by
    unfold readName?
    rw [hlead, hboth]
    rfl
  rw [hread]
  cases hself : dropLead? "self." (name ++ more) >>= word? with
  | some found =>
    obtain ⟨w, rest⟩ := found
    obtain ⟨u, -, hword⟩ := Option.bind_eq_some_iff.mp hself
    exact ⟨w, rest, rfl, (eq_of_word? hword).1⟩
  | none =>
    obtain ⟨w, rest, hword⟩ := hname.exists_word? more
    rw [hword]
    exact ⟨w, rest, rfl, (eq_of_word? hword).1⟩

/-- Every definition block names its routine. -/
theorem isWord_key_of_mem_ofFile {b : BackendCall} (hb : b ∈ ofFile version t) :
    b.key.version = version ∧ IsWord b.key.method := by
  obtain ⟨block, hblock, rfl⟩ := List.mem_map.mp hb
  obtain ⟨unit, hunit, rfl⟩ := List.mem_map.mp hblock
  obtain ⟨before, s, rest, hread⟩ := exists_reading_of_mem_findAll hunit
  obtain ⟨-, p, rfl, -⟩ := Definition.read?_eq_some_iff.mp hread
  obtain ⟨w, rest, hw, hword⟩ := @exists_word_of_readName? _ _ p.body p.gap_ne_nil p.gap_blank p.name_word none
  have hfirst : first? readName? p.text = some w := by
    rw [first?, Definition.Parts.text, find?_of_eq_some hw]
    rfl
  refine ⟨rfl, ?_⟩
  show IsWord ((first? readName? _).getD [])
  rw [hfirst]
  exact hword

end BackendCall

namespace Endpoint
variable {limit : Nat} {f : RoutingFile} {e : Endpoint}

theorem callee_of_mem_ofFile (he : e ∈ ofFile limit f) :
    (e.callee.version = [] ∨ IsVersion e.callee.version) ∧ (e.callee.method = [] ∨ IsWord e.callee.method) := by
  obtain ⟨b, -, rfl⟩ := List.mem_map.mp he
  constructor
  · show (calleeVersion? b.text f.text).getD [] = [] ∨ IsVersion ((calleeVersion? b.text f.text).getD [])
    cases h : calleeVersion? b.text f.text with
    | none => exact Or.inl rfl
    | some v => exact Or.inr (isVersion_of_calleeVersion? h)
  · show (calleeMethod? b.text).getD [] = [] ∨ IsWord ((calleeMethod? b.text).getD [])
    cases h : calleeMethod? b.text with
    | none => exact Or.inl rfl
    | some m => exact Or.inr (isWord_of_calleeMethod? h)

/-- What a block does not tell is empty in the key that it names. -/
theorem callee_ofBlock {context : Option Text} {block : Text}
    (h : calleeVersion? block f.text = none ∨ calleeMethod? block = none) :
    (ofBlock f context block).callee.version = [] ∨ (ofBlock f context block).callee.method = [] := by
  refine h.imp (fun h => ?_) fun h => ?_
  · show (calleeVersion? block f.text).getD [] = []
    rw [h]
    rfl
  · show (calleeMethod? block).getD [] = []
    rw [h]
    rfl

end Endpoint

/-! ### The join -/

section Join
variable {es : List Endpoint} {bs : List BackendCall}

theorem endpoint_mem_of_mem_links {l : Link} (hl : l ∈ (join es bs).links) :
    l.endpoint ∈ es ∧ l.endpoint.callee ∈ bs.map (·.key) := by
  have hmem : l.endpoint ∈ (join es bs).links.map (·.endpoint) := List.mem_map_of_mem hl
  rw [map_endpoint_links_join, List.mem_filter, decide_eq_true_iff] at hmem
  exact hmem

/-- Endpoints whose keys are under no backend call are unmatched, each as often as it stands there. -/
theorem sublist_unmatched_join {p : CallKey → Bool} (h : ∀ b ∈ bs, p b.key = false) :
    ((es.filter fun e => p e.callee).map (·.callee)).Sublist (join es bs).unmatched := by
  have hmap : (es.filter fun e => p e.callee).map (·.callee) = (es.map (·.callee)).filter p := by
    rw [List.filter_map]
    rfl
  rw [hmap, unmatched_join]
  refine List.monotone_filter_right _ fun k hk => decide_eq_true fun hmem => ?_
  obtain ⟨b, hb, rfl⟩ := List.mem_map.mp hmem
  rw [h b hb] at hk
  cases hk

end Join

/-- The key names no version or no method. -/
def CallKey.isBlank (k : CallKey) : Bool := k.version.isEmpty || k.method.isEmpty

theorem CallKey.isBlank_eq_true_iff {k : CallKey} : k.isBlank = true ↔ k.version = [] ∨ k.method = [] := by
  simp [CallKey.isBlank]

/-- Records that are extracted from files meet under a version and a method, and never under an empty key:
    an endpoint for which one of the two was not recognised stays without a backend call. -/
theorem extracted_keys_meet_on_versioned_words (limit : Nat) (north south : SourceTree)
    (hversions : ∀ f ∈ south.files, f.version ≠ []) :
    let a := (Survey.ofTrees limit north south).atlas
    (∀ b ∈ a.backends, IsWord b.key.method) ∧
    (∀ e ∈ a.endpoints, (e.callee.version = [] ∨ IsVersion e.callee.version) ∧
      (e.callee.method = [] ∨ IsWord e.callee.method)) ∧
    (∀ l ∈ a.joined.links, l.backend.key = l.endpoint.callee ∧ IsVersion l.endpoint.callee.version ∧
      IsWord l.endpoint.callee.method) ∧
    (∀ f ∈ north.files, ∀ b ∈ Description.blocks limit f.text,
      Endpoint.calleeVersion? b.text f.text = none ∨ Endpoint.calleeMethod? b.text = none →
      let e := Endpoint.ofBlock ⟨f.version, f.baseName, f.text⟩ b.context b.text
      e ∈ a.endpoints ∧ e.callee ∈ a.joined.unmatched ∧ ∀ l ∈ a.joined.links, l.endpoint ≠ e) ∧
    ((a.endpoints.filter fun e => e.callee.isBlank).map (·.callee)).Sublist a.joined.unmatched := by
  intro a
  have hback : ∀ b ∈ a.backends, b.key.version ≠ [] ∧ IsWord b.key.method := by
    intro b hb
    obtain ⟨f, hf, hb⟩ := List.mem_flatMap.mp hb
    obtain ⟨hversion, hmethod⟩ := BackendCall.isWord_key_of_mem_ofFile hb
    exact ⟨hversion ▸ hversions f hf, hmethod⟩
  have hblank : ∀ b ∈ a.backends, b.key.isBlank = false := by
    intro b hb
    rw [← Bool.not_eq_true, CallKey.isBlank_eq_true_iff, not_or]
    exact ⟨(hback b hb).1, (hback b hb).2.1⟩
  have hend : ∀ e ∈ a.endpoints, (e.callee.version = [] ∨ IsVersion e.callee.version) ∧
      (e.callee.method = [] ∨ IsWord e.callee.method) := by
    intro e he
    obtain ⟨f, -, he⟩ := List.mem_flatMap.mp he
    exact Endpoint.callee_of_mem_ofFile he
  have hlink : ∀ l ∈ a.joined.links, l.endpoint ∈ a.endpoints ∧ ¬l.endpoint.callee.isBlank = true := by
    intro l hl
    obtain ⟨he, hk⟩ := endpoint_mem_of_mem_links hl
    obtain ⟨b, hb, hkey⟩ := List.mem_map.mp hk
    rw [← hkey, hblank b hb]
    exact ⟨he, Bool.false_ne_true⟩
  refine ⟨fun b hb => (hback b hb).2, hend, fun l hl => ?_, fun f hf b hb hnone => ?_,
    sublist_unmatched_join hblank⟩
  · obtain ⟨-, -, -, hkey, -⟩ := mem_links_join hl
    obtain ⟨he, hfull⟩ := hlink l hl
    rw [CallKey.isBlank_eq_true_iff, not_or] at hfull
    obtain ⟨hversion, hmethod⟩ := hend _ he
    exact ⟨hkey, hversion.resolve_left hfull.1, hmethod.resolve_left hfull.2⟩
  · intro e
    have he : e ∈ a.endpoints :=
      List.mem_flatMap.mpr ⟨f, hf, List.mem_map.mpr ⟨b, hb, rfl⟩⟩
    have hk : e.callee.isBlank = true :=
      CallKey.isBlank_eq_true_iff.mpr (Endpoint.callee_ofBlock hnone)
    refine ⟨he, (sublist_unmatched_join hblank).subset (List.mem_map_of_mem (List.mem_filter.mpr ⟨he, hk⟩)), ?_⟩
    intro l hl heq
    exact (hlink l hl).2 (heq ▸ hk)

/-- Three endpoints and two routines. One endpoint calls nothing, and one calls a client of no version; the
    routine whose name stands on a line after `self.` is known as `self`. -/
theorem three_endpoints_meet_one_routine :
    let north : List SourceFile :=
      [⟨"v1/a.rb", "v1", "a", "desc 'A'\nget :a do\nShop::V12::Api\nclient.list\nend\n" ++
        "desc 'B'\nget :b do\nShop::V12::Api\nend\n" ++ "desc 'C'\nget :c do\nclient.list\nend\n"⟩]
    let south : List SourceFile := [⟨"v12/list.rb", "V12", "list", "def list\nend\ndef self.\nfoo\nend\n"⟩]
    let a := (Survey.ofTrees 4 ⟨north, 0⟩ ⟨south, 0⟩).atlas
    (∀ f ∈ south, f.version ≠ []) ∧ a.backends.map (·.key) = [⟨"V12", "list"⟩, ⟨"V12", "self"⟩] ∧
      (a.joined.links.map (·.endpoint.callee), a.joined.unmatched) =
        ([⟨"V12", "list"⟩], [⟨"V12", []⟩, ⟨[], "list"⟩]) ∧
      ∀ l ∈ a.joined.links, l.backend.key = l.endpoint.callee ∧ IsVersion l.endpoint.callee.version ∧
        IsWord l.endpoint.callee.method := by
  intro north south a
  have hversions : ∀ f ∈ south, f.version ≠ [] := by decide
  exact ⟨hversions, by decide +kernel, by decide +kernel,
    (extracted_keys_meet_on_versioned_words 4 ⟨north, 0⟩ ⟨south, 0⟩ hversions).2.2.1⟩

end EndpointAtlas
