import EndpointAtlas.Proofs.Block.Nesting
import EndpointAtlas.Proofs.Keyword.Shape

/-! Arguments of a hash on lines of their own. In a body, a line with a key is one line more in its block and moves
    no end of a block, unless the key is a word that opens bodies where a statement begins. First on its line
    such a key is read as that word, so that the body has a level more behind it. -/

namespace EndpointAtlas.Description
open Text

/-- A line that begins with the key of a hash. No keyword stands behind the key. -/
structure KeyLine where
  indent : Text
  key : Text
  rest : Text
  blank : Keyword.IsGap indent
  nonempty : key ≠ []
  ident : ∀ c ∈ key, isIdentChar c = true
  ne_do : key ≠ "do"
  ne_end : key ≠ "end"
  single : rest.head? ≠ some ':'
  free : Keyword.IsFree rest

/-- The text of the line. -/
def KeyLine.line (k : KeyLine) : Text := k.indent ++ (k.key ++ ':' :: k.rest)

/-- The parts of a block that are bodies, each with the levels open in it. -/
inductive IsBody : (Int → Part) → Prop where
  | params : IsBody .params
  | handler : IsBody .handler

theorem KeyLine.depthChange_line (k : KeyLine) :
    Keyword.depthChange k.line = if k.key ∈ Keyword.statementWords then 1 else 0 := by
  have hfree : Keyword.IsFree (':' :: k.rest) := (Keyword.isFree_cons_iff rfl).mpr k.free
  have hhead : ∀ c ∈ (':' :: k.rest).head?, isIdentChar c = false := by
    rintro c ⟨⟩
    rfl
  rw [line, Keyword.depthChange_gap k.blank, Keyword.depthChange_eq]
  by_cases hkey : k.key ∈ Keyword.statementWords
  · -- Behind nothing but blanks a statement begins whatever follows the word: the colon is not looked at.
    rw [if_pos hkey]
    exact Keyword.changeBehind_statementWord hkey rfl hhead hfree
  · have hword : k.key ∉ Keyword.words := by
      simp only [Keyword.words, List.mem_cons, not_or]
      exact ⟨k.ne_do, k.ne_end, hkey⟩
    rw [if_neg hkey, Keyword.changeBehind_word k.nonempty k.ident hhead, Keyword.ofWord?_of_not_mem_words hword,
      Keyword.changeBehind_of_isFree hfree]
    rfl

/-! ### Bodies -/

section Bodies
variable {limit : Nat} {scopes around before ls behind : List Text} {line : Text} {part : Int → Part} {n : Int}

theorem IsBody.ne_between (hpart : IsBody part) (n : Int) : part n ≠ .between := by
  cases hpart <;> exact Part.noConfusion

theorem Stands.pos_of_isBody (hpart : IsBody part) (h : Stands ls (part n)) : 0 < n := by
  generalize hp : part n = p at h
  cases h with
  | header hdesc hopen =>
    unfold Part.ofLines Part.ofHeader at hp
    cases hpart <;> split at hp <;> cases hp
  | between => exact absurd hp (hpart.ne_between n)
  | params before first inside hls hheader hfirst hopen
  | handler before first inside hls hheader hfirst hopen =>
    obtain rfl : n = levels (first :: inside) := by
      cases hpart <;> cases hp
      rfl
    exact hopen.last (List.cons_ne_nil _ _)

namespace Reading

theorem step_isBody (hpart : IsBody part) (hpos : 0 < n + Keyword.depthChange line) (ls : List Text) :
    step limit ⟨scopes, some ⟨around, ls, part n⟩⟩ line =
      (none, ⟨scopes, some ⟨around, ls ++ [line], part (n + Keyword.depthChange line)⟩⟩) := by
  cases hpart with
  | params => rw [step_params, if_neg (Int.not_le.mpr hpos)]
  | handler => rw [step_handler, if_neg (Int.not_le.mpr hpos)]

/-- A body that no line closes goes on to the end of the text. -/
theorem blocksFrom_isBody (hpart : IsBody part) (hopen : ∀ m ≤ behind.length, 0 < n + levels (behind.take m))
    (ls : List Text) : blocksFrom limit ⟨scopes, some ⟨around, ls, part n⟩⟩ behind =
      [⟨.description, around, trim (joinWith "\n" (ls ++ behind))⟩] := by
  have hrun : run limit ⟨scopes, some ⟨around, ls, part n⟩⟩ behind = _ :=
    run_inside (fun _ ls _ hpos => step_isBody hpart hpos ls) ls hopen
  rw [blocksFrom, hrun]
  rfl

end Reading

end Bodies

/-- A line with a key, inserted before a line of a body. Where the key is no word that opens bodies, one block has
    the line in addition, and all else stays what it is. Where it is one, the body has a level more from there on,
    and if no more bodies are closed behind it than are open, the block takes all of the text. -/
theorem blocks_insert_key_line (limit : Nat) (k : KeyLine) {before behind ls scopes around : List Text} {line : Text}
    {part : Int → Part} {n : Int} (hpart : IsBody part)
    (hread : (Reading.run limit (.start []) before).2 = ⟨scopes, some ⟨around, ls, part n⟩⟩) {text text' : Text}
    (htext : lines text = before ++ line :: behind) (htext' : lines text' = before ++ k.line :: line :: behind) :
    let closed := (Reading.run limit (.start []) before).1
    let block := fun ls : List Text => (⟨.description, around, trim (joinWith "\n" ls)⟩ : Block)
    (k.key ∉ Keyword.statementWords → ∃ back more, back ≠ [] ∧ back <+: line :: behind ∧
      blocks limit text = closed ++ block (ls ++ back) :: more ∧
      blocks limit text' = closed ++ block (ls ++ k.line :: back) :: more) ∧
    (k.key ∈ Keyword.statementWords →
      blocks limit text' = closed ++
        Reading.blocksFrom limit ⟨scopes, some ⟨around, ls ++ [k.line], part (n + 1)⟩⟩ (line :: behind) ∧
      ((∀ m ≤ (line :: behind).length, 0 ≤ n + levels ((line :: behind).take m)) →
        blocks limit text' = closed ++ [block (ls ++ k.line :: line :: behind)])) := by
  intro closed block
  have hpos : 0 < n := (Reading.stands_of_run hread).pos_of_isBody hpart
  have hblocks : ∀ {t : Text} {more : List Text}, lines t = before ++ more →
      blocks limit t = closed ++ Reading.blocksFrom limit ⟨scopes, some ⟨around, ls, part n⟩⟩ more := by
    intro t more ht
    show Reading.blocksFrom limit (.start []) (lines t) = _
    rw [ht, ← hread]
    exact Reading.blocksFrom_append_of_eq rfl more
  have hblocks' : ∀ {δ : Int}, Keyword.depthChange k.line = δ → 0 ≤ δ → blocks limit text' = closed ++
      Reading.blocksFrom limit ⟨scopes, some ⟨around, ls ++ [k.line], part (n + δ)⟩⟩ (line :: behind) := by
    rintro δ rfl hδ
    rw [hblocks htext', Reading.blocksFrom_cons_of_eq (Reading.step_isBody hpart (by omega) ls)]
  refine ⟨fun hkey => ?_, fun hkey => ?_⟩
  · obtain ⟨back, more, hback, hne, htaken⟩ := Reading.exists_taken limit scopes (part n) (line :: behind)
    have hsame := hblocks' (k.depthChange_line.trans (if_neg hkey)) (Int.le_refl 0)
    rw [Int.add_zero, htaken, List.append_assoc] at hsame
    refine ⟨back, more, hne (hpart.ne_between n) (List.cons_ne_nil _ _), hback, ?_, hsame⟩
    rw [hblocks htext, htaken]
  · have hup := hblocks' (k.depthChange_line.trans (if_pos hkey)) Int.one_nonneg
    refine ⟨hup, fun hopen => ?_⟩
    have hopen' : ∀ m ≤ (line :: behind).length, 0 < n + 1 + levels ((line :: behind).take m) := fun m hm => by
      have hle := hopen m hm
      omega
    rw [hup, Reading.blocksFrom_isBody hpart hopen', List.append_assoc]
    rfl

/-- A key that begins like a keyword, among the arguments of a call. -/
theorem blocks_insert_until_date :
    let k : KeyLine := ⟨"    ", "until_date", " y,", by decide, by decide, List.all_eq_true.mp rfl, by decide, by decide,
      by decide, by decide⟩
    let before : List Text := ["desc 'A'", "get :a do", "  call(x,"]
    let behind : List Text := ["    z: z)", "end", "desc 'B'", "get :b"]
    let text : Text := "desc 'A'\nget :a do\n  call(x,\n    z: z)\nend\ndesc 'B'\nget :b"
    let text' : Text := "desc 'A'\nget :a do\n  call(x,\n    until_date: y,\n    z: z)\nend\ndesc 'B'\nget :b"
    lines text = before ++ behind ∧ lines text' = before ++ k.line :: behind ∧
      (Reading.run 4 (.start []) before).2 = ⟨[], some ⟨[], before, .handler 1⟩⟩ ∧
      (blocks 4 text').length = (blocks 4 text).length ∧
      blocks 4 text' = [⟨.description, [], "desc 'A'\nget :a do\n  call(x,\n    until_date: y,\n    z: z)\nend"⟩,
        ⟨.description, [], "desc 'B'\nget :b"⟩] := by
  intro k before behind text text'
  have htext : lines text = before ++ behind := by decide +kernel
  have htext' : lines text' = before ++ k.line :: behind := by decide +kernel
  have hread : (Reading.run 4 (.start []) before).2 = ⟨[], some ⟨[], before, .handler 1⟩⟩ := by decide +kernel
  obtain ⟨back, more, -, -, hblocks, hblocks'⟩ := (blocks_insert_key_line 4 k .handler hread htext htext').1 (by decide)
  refine ⟨htext, htext', hread, ?_, by decide +kernel⟩
  rw [hblocks, hblocks', List.length_append, List.length_append]
  rfl

/-- A key that is a keyword: the parameters are left open, and their block takes the next endpoint. -/
theorem body_left_open_by_if_key :
    let k : KeyLine := ⟨"    ", "if", " :given", by decide, by decide, List.all_eq_true.mp rfl, by decide, by decide,
      by decide, by decide⟩
    let before : List Text := ["desc 'A'", "params do", "  optional :code,"]
    let behind : List Text := ["end", "get :a do", "end", "desc 'B'", "get :b do", "end"]
    let text : Text := "desc 'A'\nparams do\n  optional :code,\nend\nget :a do\nend\ndesc 'B'\nget :b do\nend\n"
    let text' : Text :=
      "desc 'A'\nparams do\n  optional :code,\n    if: :given\nend\nget :a do\nend\ndesc 'B'\nget :b do\nend\n"
    lines text = before ++ behind ∧ lines text' = before ++ k.line :: behind ∧
      (Reading.run 4 (.start []) before).2 = ⟨[], some ⟨[], before, .params 1⟩⟩ ∧
      blocks 4 text = [⟨.description, [], "desc 'A'\nparams do\n  optional :code,\nend\nget :a do\nend"⟩,
        ⟨.description, [], "desc 'B'\nget :b do\nend"⟩] ∧
      blocks 4 text' = [⟨.description, [], joinWith "\n" (before ++ k.line :: behind)⟩] := by
  decide +kernel

end EndpointAtlas.Description
