import EndpointAtlas.Proofs.FileTree.Growth

/-! What the content of files does not decide. Trees that have files and directories at the same places are
    walked alike, and an edit ends on both with the same result and leaves them alike, whatever it writes.
    So one edit is known from another that writes something else, or was made on a tree with other contents. -/

namespace EndpointAtlas

/-- An entry without its content. -/
def Entry.blank : Entry → Entry
  | file _ => file []
  | locked => locked
  | directory => directory

namespace FileTree

/-- Both trees have files at the same places, locked files and directories too. -/
structure Alike (t u : FileTree) : Prop where
  current : t.current = u.current
  blank : ∀ p, (t.get? p).map Entry.blank = (u.get? p).map Entry.blank

/-- Both are one tree, whose entries may be listed in different orders. -/
structure SameTree (t u : FileTree) : Prop where
  current : t.current = u.current
  get? : ∀ p, t.get? p = u.get? p

/-- Two edits had the same result and left trees alike. -/
structure AlikeRuns {ε α : Type} (x y : Except ε α × FileTree) : Prop where
  result : x.1 = y.1
  tree : Alike x.2 y.2

theorem AlikeRuns.exists_eq {ε α : Type} {x y : Except ε α × FileTree} (h : AlikeRuns x y) {r : Except ε α}
    {t : FileTree} (hx : x = (r, t)) : ∃ u, y = (r, u) ∧ Alike t u := by
  subst hx
  exact ⟨y.2, Prod.ext h.result.symm rfl, h.tree⟩

theorem SameTree.refl (t : FileTree) : SameTree t t := ⟨rfl, fun _ => rfl⟩

theorem SameTree.alike {t u : FileTree} (h : SameTree t u) : Alike t u := ⟨h.current, fun p => by rw [h.get? p]⟩

theorem SameTree.content? {t u : FileTree} (h : SameTree t u) (p : Place) : t.content? p = u.content? p := by
  rw [FileTree.content?, FileTree.content?, h.get? p]

theorem SameTree.file? {t u : FileTree} (h : SameTree t u) (p : Place) : t.file? p = u.file? p := by
  rw [FileTree.file?, FileTree.file?, h.get? p]

namespace Alike
variable {t u v : FileTree}

theorem refl (t : FileTree) : Alike t t := ⟨rfl, fun _ => rfl⟩

theorem symm (h : Alike t u) : Alike u t := ⟨h.current.symm, fun p => (h.blank p).symm⟩

theorem trans (h : Alike t u) (h' : Alike u v) : Alike t v :=
  ⟨h.current.trans h'.current, fun p => (h.blank p).trans (h'.blank p)⟩

/-- Trees alike that have the same files are one tree. -/
theorem sameTree (h : Alike t u) (hcontent : ∀ p, t.content? p = u.content? p) : SameTree t u := by
  refine ⟨h.current, fun p => ?_⟩
  have hblank := h.blank p
  have hc := hcontent p
  unfold FileTree.content? at hc
  cases ht : t.get? p with
  | none =>
    rw [ht] at hblank
    exact (Option.map_eq_none_iff.mp hblank.symm).symm
  | some e =>
    rw [ht] at hblank hc
    obtain ⟨e', hu, he⟩ := Option.map_eq_some_iff.mp hblank.symm
    rw [hu] at hc ⊢
    cases e with
    | file c =>
      cases e' with
      | file c' => rw [Option.some.inj hc]
      | _ => cases he
    | locked =>
      cases e' with
      | locked => rfl
      | _ => cases he
    | directory =>
      cases e' with
      | directory => rfl
      | _ => cases he

/-- A name stands for the same in both trees, or for a file. -/
theorem lookup_cases (h : Alike t u) (p : Place) (name : Bytes) :
    t.lookup p name = u.lookup p name ∨ ∃ c c', t.lookup p name = .ok (.file c) ∧ u.lookup p name = .ok (.file c') := by
  have hblank := h.blank (p ++ [name])
  unfold lookup
  split
  · exact Or.inl rfl
  · cases ht : t.get? (p ++ [name]) with
    | none =>
      rw [ht] at hblank
      rw [Option.map_eq_none_iff.mp hblank.symm]
      exact Or.inl rfl
    | some e =>
      rw [ht] at hblank
      obtain ⟨e', hu, he⟩ := Option.map_eq_some_iff.mp hblank.symm
      rw [hu]
      cases e with
      | file c =>
        cases e' with
        | file c' => exact Or.inr ⟨c, c', rfl, rfl⟩
        | _ => cases he
      | locked =>
        cases e' with
        | locked => exact Or.inl rfl
        | _ => cases he
      | directory =>
        cases e' with
        | directory => exact Or.inl rfl
        | _ => cases he

theorem enter (h : Alike t u) (p : Place) (name : Bytes) : t.enter p name = u.enter p name := by
  unfold FileTree.enter
  rcases h.lookup_cases p name with hsame | ⟨c, c', ht, hu⟩
  · rw [hsame]
  · rw [ht, hu]
    rfl

theorem target (h : Alike t u) (path : Bytes) : t.target path = u.target path := by
  unfold FileTree.target
  rw [h.current, funext fun p => funext (h.enter p)]

theorem directory? (h : Alike t u) (path : Bytes) : t.directory? path = u.directory? path := by
  unfold FileTree.directory? find
  rw [h.target path]
  cases u.target path with
  | error e => rfl
  | ok target =>
    cases target with
    | directory p => rfl
    | named parent name slashed =>
      dsimp only [bind, Except.bind]
      rcases h.lookup_cases parent name with hsame | ⟨c, c', ht, hu⟩
      · rw [hsame]
      · rw [ht, hu]
        cases slashed <;> rfl

theorem put (h : Alike t u) {p : Place} {e e' : Entry} (hp : p ≠ []) (he : e.blank = e'.blank) :
    Alike (t.put p e) (u.put p e') := by
  refine ⟨h.current, fun q => ?_⟩
  rw [get?_put t e hp, get?_put u e' hp]
  split
  · exact congrArg some he
  · exact h.blank q

/-- Files may change as long as they stay files. -/
theorem put_file {p : Place} {c : Bytes} (hp : p ≠ []) (h : t.get? p = some (.file c)) (c' : Bytes) :
    Alike t (t.put p (.file c')) := by
  refine ⟨rfl, fun q => ?_⟩
  rw [get?_put t _ hp]
  split
  · next hq =>
    rw [hq, h]
    rfl
  · rfl

theorem makeDirectory (h : Alike t u) (path : Bytes) :
    (∃ e, t.makeDirectory path = .error e ∧ u.makeDirectory path = .error e) ∨
      ∃ t' u', t.makeDirectory path = .ok t' ∧ u.makeDirectory path = .ok u' ∧ Alike t' u' := by
  unfold FileTree.makeDirectory
  rw [h.target path]
  cases u.target path with
  | error e => exact Or.inl ⟨e, rfl, rfl⟩
  | ok target =>
    cases target with
    | directory p => exact Or.inl ⟨_, rfl, rfl⟩
    | named parent name slashed =>
      dsimp only [bind, Except.bind]
      rcases h.lookup_cases parent name with hsame | ⟨c, c', ht, hu⟩
      · rw [hsame]
        cases u.lookup parent name with
        | ok e => exact Or.inl ⟨_, rfl, rfl⟩
        | error e =>
          cases e with
          | notFound => exact Or.inr ⟨_, _, rfl, rfl, h.put (by simp) rfl⟩
          | _ => exact Or.inl ⟨_, rfl, rfl⟩
      · rw [ht, hu]
        exact Or.inl ⟨_, rfl, rfl⟩

theorem write (h : Alike t u) (path : Bytes) (c c' : Bytes) :
    (∃ e, t.write path c = .error e ∧ u.write path c' = .error e) ∨
      ∃ t' u', t.write path c = .ok t' ∧ u.write path c' = .ok u' ∧ Alike t' u' := by
  unfold FileTree.write
  rw [h.target path]
  cases u.target path with
  | error e => exact Or.inl ⟨e, rfl, rfl⟩
  | ok target =>
    cases target with
    | directory p => exact Or.inl ⟨_, rfl, rfl⟩
    | named parent name slashed =>
      cases slashed with
      | true => exact Or.inl ⟨_, rfl, rfl⟩
      | false =>
        dsimp only [bind, Except.bind]
        rw [if_neg (by simp), if_neg (by simp)]
        rcases h.lookup_cases parent name with hsame | ⟨d, d', ht, hu⟩
        · rw [hsame]
          cases u.lookup parent name with
          | ok e =>
            cases e with
            | file d => exact Or.inr ⟨_, _, rfl, rfl, h.put (by simp) rfl⟩
            | _ => exact Or.inl ⟨_, rfl, rfl⟩
          | error e =>
            cases e with
            | notFound => exact Or.inr ⟨_, _, rfl, rfl, h.put (by simp) rfl⟩
            | _ => exact Or.inl ⟨_, rfl, rfl⟩
        · rw [ht, hu]
          exact Or.inr ⟨_, _, rfl, rfl, h.put (by simp) rfl⟩

/-! ### Edits on trees alike -/

theorem run_requireDirectory (h : Alike t u) (path : Bytes) :
    AlikeRuns ((requireDirectory path).run.run t) ((requireDirectory path).run.run u) := by
  rw [run_requireDirectory_eq, run_requireDirectory_eq]
  rcases h.makeDirectory path with ⟨e, ht, hu⟩ | ⟨t', u', ht, hu, h'⟩
  · rw [ht, hu, h.directory? path]
    dsimp only
    split
    · exact ⟨rfl, h⟩
    · exact ⟨rfl, h⟩
  · rw [ht, hu]
    exact ⟨rfl, h'⟩

theorem run_makeDirectories (h : Alike t u) (parts : List Part) :
    AlikeRuns ((makeDirectories parts).run.run t) ((makeDirectories parts).run.run u) := by
  induction parts with
  | nil => exact ⟨rfl, h⟩
  | cons part above ih =>
    rw [run_makeDirectories_cons, run_makeDirectories_cons]
    rcases h.makeDirectory (Path.toBytes (part :: above).reverse) with ⟨e, ht, hu⟩ | ⟨t', u', ht, hu, -⟩
    · rw [ht, hu]
      cases e with
      | notFound =>
        obtain ⟨hresult, htree⟩ := ih
        dsimp only
        generalize StateT.run (ExceptT.run (makeDirectories above)) t = x at hresult htree ⊢
        generalize StateT.run (ExceptT.run (makeDirectories above)) u = y at hresult htree ⊢
        obtain ⟨r, t'⟩ := x
        obtain ⟨r', u'⟩ := y
        obtain rfl : r = r' := hresult
        cases r with
        | ok a => exact htree.run_requireDirectory _
        | error e => exact ⟨rfl, htree⟩
      | _ => exact h.run_requireDirectory _
    · rw [ht, hu]
      exact h.run_requireDirectory _

theorem runParents (h : Alike t u) (path : Bytes) : AlikeRuns (t.runParents path) (u.runParents path) := by
  unfold FileTree.runParents
  cases (Path.ofBytes path).parent? with
  | none => exact ⟨rfl, h⟩
  | some parent => exact h.run_makeDirectories _

/-- A write ends the same way on trees alike, whatever it writes. -/
theorem run_writeWithin (h : Alike t u) (path : Bytes) (c c' : Bytes) :
    AlikeRuns ((writeWithin path c).run.run t) ((writeWithin path c').run.run u) := by
  rw [run_writeWithin_eq, run_writeWithin_eq]
  obtain ⟨hresult, htree⟩ := h.runParents path
  generalize t.runParents path = x at hresult htree ⊢
  generalize u.runParents path = y at hresult htree ⊢
  obtain ⟨r, t'⟩ := x
  obtain ⟨r', u'⟩ := y
  obtain rfl : r = r' := hresult
  cases r with
  | error e => exact ⟨rfl, htree⟩
  | ok a =>
    have htree : Alike t' u' := htree
    dsimp only
    rcases htree.write path c c' with ⟨e, ht, hu⟩ | ⟨t'', u'', ht, hu, h''⟩
    · rw [ht, hu]
      exact ⟨rfl, htree⟩
    · rw [ht, hu]
      exact ⟨rfl, h''⟩

end Alike

end FileTree

end EndpointAtlas
