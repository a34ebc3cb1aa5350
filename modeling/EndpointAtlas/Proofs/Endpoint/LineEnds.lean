import EndpointAtlas.Endpoint.FromSource
import EndpointAtlas.Proofs.Text.Find
import EndpointAtlas.Proofs.Text.LineEnds

/-! Line ends of a routing file. A line ends at a line feed or at a carriage return and a line feed, and the endpoints
    of the file are the same. Blocks are made of lines, so that only the hook is read from the file as it is; each part
    of it ignores line ends, however long the text is that a path is looked for in. -/

namespace EndpointAtlas.Endpoint
open Text

variable {t rest name : Text} {file : RoutingFile}

/-! ### Versioned paths -/

theorem length_lt_of_readModule? (h : readModule? t = some (name, rest)) : rest.length < t.length := by
  obtain ⟨c, hhead, h⟩ := Option.bind_eq_some_iff.mp h
  split at h
  · cases h
  · obtain ⟨⟨w, u⟩, hword, h⟩ := Option.bind_eq_some_iff.mp h
    obtain ⟨x, hcolons, hresult⟩ := Option.bind_eq_some_iff.mp h
    cases hresult
    rw [(eq_of_word? hword).2, dropLead?_eq_some_iff.mp hcolons, List.length_append, List.length_append]
    exact Nat.lt_of_lt_of_le (Nat.lt_add_of_pos_left Nat.two_pos) (Nat.le_add_left _ _)

/-- As many modules can be read as the text has characters: no more than that are asked for. -/
theorem lastVersion?_congr {m n : Nat} (hm : t.length ≤ m) (hn : t.length ≤ n) :
    lastVersion? m t = lastVersion? n t := by
  have hnil : ∀ k, lastVersion? k [] = none := fun k => by cases k <;> rfl
  induction m generalizing n t with
  | zero =>
    rw [List.length_eq_zero_iff.mp (Nat.le_zero.mp hm), hnil, hnil]
  | succ m ih =>
    cases n with
    | zero => rw [List.length_eq_zero_iff.mp (Nat.le_zero.mp hn), hnil, hnil]
    | succ n =>
      rw [lastVersion?, lastVersion?]
      cases hread : readModule? t with
      | none => rfl
      | some found =>
        have hshort : found.2.length < t.length := length_lt_of_readModule? hread
        have hlater := @ih found.2 n (by omega) (by omega)
        simp only [Option.bind_eq_bind, Option.bind_some, hlater]

theorem ignoresLineEnds_readModule? : IgnoresLineEnds readModule? := by
  intro t
  have hcolons : IsPlainLine "::" := by decide
  unfold readModule?
  rw [ignoresLineEnds_word? t]
  fun_cases unifyLineEnds t with
  | case1 => rfl
  | case2 t => rfl
  | case3 c t hnot =>
    simp only [List.head?_cons, Option.bind_eq_bind, Option.bind_some]
    split
    · rfl
    · cases word? (c :: t) with
      | none => rfl
      | some found =>
        simp only [Option.map_some, Option.bind_some, Prod.map_snd, dropLead?_unifyLineEnds hcolons]
        cases dropLead? "::" found.2 <;> rfl

theorem ignoresLineEnds_lastVersion? (n : Nat) : IgnoresLineEnds (lastVersion? n) := by
  induction n with
  | zero => exact fun t => rfl
  | succ n ih =>
    intro t
    rw [lastVersion?, lastVersion?, ignoresLineEnds_readModule? t]
    cases readModule? t with
    | none => rfl
    | some found =>
      obtain ⟨name, rest⟩ := found
      simp only [Option.map_some, Option.bind_eq_bind, Option.bind_some, Prod.map_apply, id_eq, ih rest]
      cases lastVersion? n rest with
      | some found => rfl
      | none => cases isVersion name <;> rfl

theorem ignoresLineEnds_readVersionedPath? : IgnoresLineEnds readVersionedPath? := by
  intro t
  unfold readVersionedPath?
  rw [ignoresLineEnds_readModule? t]
  cases readModule? t with
  | none => rfl
  | some found =>
    obtain ⟨name, rest⟩ := found
    have hlast : lastVersion? (unifyLineEnds rest).length (unifyLineEnds rest) =
        lastVersion? rest.length (unifyLineEnds rest) :=
      lastVersion?_congr (Nat.le_refl _) (length_unifyLineEnds_le rest)
    exact hlast.trans (ignoresLineEnds_lastVersion? rest.length rest)

/-! ### The hook -/

theorem ignoresLineEnds_readNamespace? (before : Option Char) : IgnoresLineEnds (readNamespace? before) := by
  intro t
  unfold readNamespace?
  split
  · exact ignoresLineEnds_readVersionedPath? t
  · rfl

theorem readNamespace?_of_not_isCapital {c : Char} (hc : isCapital c = false) (before : Option Char) (t : Text) :
    readNamespace? before (c :: t) = none := by
  unfold readNamespace? readVersionedPath? readModule?
  simp [hc]

/-- A hook is read alike although it spans lines. -/
theorem ignoresLineEnds_readHook? (before : Option Char) : IgnoresLineEnds (readHook? before) := by
  intro t
  have hword : IsPlainLine "before" := by decide
  have hbrace : IsPlainLine "\x7b" := by decide
  have hpath := ignoresLineEnds_find? ignoresLineEnds_readNamespace?
    (fun _ _ => ⟨readNamespace?_of_not_isCapital rfl _ _, readNamespace?_of_not_isCapital rfl _ _⟩) (some '\x7b')
  unfold readHook?
  rw [dropLead?_unifyLineEnds hword]
  cases dropLead? "before" t with
  | none => rfl
  | some u =>
    simp only [Option.map_some, Option.bind_eq_bind, Option.bind_some]
    rw [trimStart_unifyLineEnds, dropLead?_unifyLineEnds hbrace]
    cases dropLead? "\x7b" (trimStart u) with
    | none => rfl
    | some v =>
      simp only [Option.map_some, Option.bind_some]
      rw [(takeWhile_dropWhile_unifyLineEnds (p := (· != '\x7d')) rfl v).1]
      exact hpath _

theorem calleeVersion?_unifyLineEnds (block t : Text) :
    calleeVersion? block (unifyLineEnds t) = calleeVersion? block t := by
  rw [calleeVersion?, calleeVersion?, first?_unifyLineEnds ignoresLineEnds_readHook? fun _ _ => ⟨rfl, rfl⟩]

/-! ### The file -/

/-- A file whose carriage returns all belong to line ends is read like the same file with line feeds alone, be its
    line ends of one kind or of both. -/
theorem ofFile_unifyLineEnds (limit : Nat) (h : '\r' ∉ unifyLineEnds file.text) :
    ofFile limit { file with text := unifyLineEnds file.text } = ofFile limit file := by
  have hblocks : Description.blocks limit (unifyLineEnds file.text) = Description.blocks limit file.text := by
    rw [Description.blocks, Description.blocks, Description.blocksWithin, Description.blocksWithin,
      lines_unifyLineEnds h]
  rw [ofFile, ofFile, hblocks]
  refine List.map_congr_left fun b _ => ?_
  rw [ofBlock, ofBlock, calleeVersion?_unifyLineEnds]

/-- Whether a line feed or a carriage return and a line feed end the lines of a file, its endpoints are the same. -/
theorem ofFile_pairLineEnds (limit : Nat) (file : RoutingFile) (h : '\r' ∉ file.text) :
    ofFile limit { file with text := pairLineEnds file.text } = ofFile limit file := by
  have hunify : unifyLineEnds (pairLineEnds file.text) = file.text := unifyLineEnds_pairLineEnds h
  have hfile := @ofFile_unifyLineEnds { file with text := pairLineEnds file.text } limit (by rwa [hunify])
  rw [← hfile, hunify]

/-- A hook on three lines, and no line end behind the last line. -/
theorem ofFile_pairLineEnds_of_long_hook :
    let text : Text := "before \x7b\n  auth!(\n    Acme::API::V3::Orders) \x7d\ndesc 'A'\nget :a do\n  client.list\nend"
    let file : RoutingFile := ⟨"v2", "orders", text⟩
    '\r' ∉ text ∧ ofFile 4 { file with text := pairLineEnds text } = ofFile 4 file ∧
      (ofFile 4 file).map (·.callee) = [⟨"V3", "list"⟩] := by
  intro text file
  have hfile : file = ⟨"v2", "orders", text⟩ := rfl
  -- The characters of the text, taken out of the literal once and for all.
  have htext : text = _ := String.toList_ofList
  have hplain : '\r' ∉ text := by
    rw [htext]
    decide
  refine ⟨hplain, ofFile_pairLineEnds 4 file hplain, ?_⟩
  rw [hfile, htext]
  decide

end EndpointAtlas.Endpoint
