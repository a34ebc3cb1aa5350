import EndpointAtlas.Proofs.FileTree.Rewrite

/-! Edits that take several steps: the directories above a file are made one after the other, and then it is
    written. Whatever such an edit did before it failed keeps the tree, and every file in it as it was. -/

namespace EndpointAtlas.FileTree
open Text

variable {t u v : FileTree} {path : Bytes} {content : Bytes}

theorem run_requireDirectory_eq (t : FileTree) (path : Bytes) : (requireDirectory path).run.run t =
    match t.makeDirectory path with
    | .ok u => (.ok (), u)
    | .error e => if (t.directory? path).isSome then (.ok (), t) else (.error e, t) := by
  unfold requireDirectory
  cases h : t.makeDirectory path with
  | ok u =>
    have hedit : (edit fun t => t.makeDirectory path).run.run t = (.ok (), u) := run_edit_of_ok h
    rw [ExceptT.run_tryCatch, StateT.run_bind, hedit]
    rfl
  | error e =>
    have hedit : (edit fun t => t.makeDirectory path).run.run t = (.error e, t) := run_edit_of_error h
    rw [run_tryCatch_of_error hedit]
    show (unless (t.directory? path).isSome do throw e : Edit).run.run t = _
    cases (t.directory? path).isSome <;> rfl

theorem run_makeDirectories_cons (t : FileTree) (part : Part) (above : List Part) :
    (makeDirectories (part :: above)).run.run t =
      match t.makeDirectory (Path.toBytes (part :: above).reverse) with
      | .error .notFound =>
        match (makeDirectories above).run.run t with
        | (.ok _, v) => (requireDirectory (Path.toBytes (part :: above).reverse)).run.run v
        | (.error e, v) => (.error e, v)
      | _ => (requireDirectory (Path.toBytes (part :: above).reverse)).run.run t := by
  rw [makeDirectories, run_bind_of_ok (run_get t)]
  cases t.makeDirectory (Path.toBytes (part :: above).reverse) with
  | ok u => rfl
  | error e =>
    cases e with
    | notFound =>
      dsimp only
      rw [run_bind_eq]
      generalize StateT.run (ExceptT.run (makeDirectories above)) t = r
      obtain ⟨e | a, v⟩ := r <;> rfl
    | _ => rfl

/-- The directories above a file are made before it is written. -/
def runParents (t : FileTree) (path : Bytes) : Except FileError Unit × FileTree :=
  match (Path.ofBytes path).parent? with
  | some parent => (makeDirectories parent.reverse).run.run t
  | none => (.ok (), t)

theorem run_writeWithin_eq (t : FileTree) (path : Bytes) (content : Bytes) : (writeWithin path content).run.run t =
    match t.runParents path with
    | (.ok _, v) =>
      match v.write path content with
      | .ok u => (.ok (), u)
      | .error e => (.error e, v)
    | (.error e, v) => (.error e, v) := by
  have hedit : ∀ v, (edit (·.write path content)).run.run v =
      match v.write path content with
      | .ok u => (.ok (), u)
      | .error e => (.error e, v) := by
    intro v
    cases h : v.write path content with
    | ok u => exact run_edit_of_ok h
    | error e => exact run_edit_of_error h
  rw [writeWithin_eq, run_bind_eq, runParents]
  simp only [hedit]
  cases (Path.ofBytes path).parent? with
  | none => rfl
  | some parent =>
    dsimp only
    generalize StateT.run (ExceptT.run (makeDirectories parent.reverse)) t = r
    obtain ⟨e | a, v⟩ := r <;> rfl

theorem keeps_requireDirectory {r : Except FileError Unit} (h : (requireDirectory path).run.run t = (r, u)) :
    Keeps [] t u := by
  rw [run_requireDirectory_eq] at h
  split at h
  · next hmake =>
    cases h
    exact keeps_makeDirectory hmake
  · split at h
    · cases h
      exact Keeps.refl t
    · cases h
      exact Keeps.refl t

theorem keeps_makeDirectories {parts : List Part} {r : Except FileError Unit}
    (h : (makeDirectories parts).run.run t = (r, u)) : Keeps [] t u := by
  induction parts generalizing r u with
  | nil =>
    cases h
    exact Keeps.refl t
  | cons part above ih =>
    rw [run_makeDirectories_cons] at h
    split at h
    · split at h
      · next v habove => exact (ih habove).trans (keeps_requireDirectory h)
      · next e v habove =>
        cases h
        exact ih habove
    · exact keeps_requireDirectory h

theorem keeps_runParents {r : Except FileError Unit} (h : t.runParents path = (r, u)) : Keeps [] t u := by
  unfold runParents at h
  split at h
  · exact keeps_makeDirectories h
  · cases h
    exact Keeps.refl t

/-- What stops a write leaves all files as they were. -/
theorem keeps_writeWithin_of_error {e : FileError} (h : (writeWithin path content).run.run t = (.error e, u)) :
    Keeps [] t u := by
  rw [run_writeWithin_eq] at h
  split at h
  · next v hparents =>
    split at h
    · cases h
    · cases h
      exact keeps_runParents hparents
  · next e v hparents =>
    cases h
    exact keeps_runParents hparents

theorem keeps_writeWithin_of_ok (h : (writeWithin path content).run.run t = (.ok (), u)) :
    Keeps [t.placeOf path] t u ∧ u.content? (t.placeOf path) = some content := by
  rw [run_writeWithin_eq] at h
  split at h
  · next v hparents =>
    have hv := keeps_runParents hparents
    split at h
    · next hwrite =>
      cases h
      have hplace := hv.placeOf path
      have hu := keeps_write hwrite
      have hcontent := content?_write hwrite
      rw [hplace] at hu hcontent
      exact ⟨(hv.mono (List.nil_subset _)).trans hu, hcontent⟩
    · cases h
  · cases h

/-- A file that is there is written over. -/
theorem run_writeWithin_over {c : Bytes} (h : t.read path = .ok c) (content : Bytes) :
    (writeWithin path content).run.run t = (.ok (), t.put (t.placeOf path) (.file content)) := by
  obtain ⟨parent, name, htarget, hlook⟩ := read_eq_ok_iff.mp h
  rw [run_writeWithin_of_target htarget, placeOf_of_target htarget]
  exact run_edit_of_ok (write_eq_ok_iff.mpr ⟨parent, name, htarget, Or.inl ⟨c, hlook⟩, rfl⟩)

theorem read_of_keeps {W : List Place} (hk : Keeps W t u) (h : t.read path = .ok content) :
    ∃ c, u.read path = .ok c ∧ u.content? (t.placeOf path) = some c := by
  obtain ⟨parent, name, htarget, hlook⟩ := read_eq_ok_iff.mp h
  obtain ⟨hlen, hget⟩ := lookup_eq_ok_iff.mp hlook
  have hsome := hk.file (parent ++ [name]) (by rw [content?_eq_some_iff.mpr hget]; rfl)
  obtain ⟨c, hc⟩ := Option.isSome_iff_exists.mp hsome
  refine ⟨c, read_eq_ok_iff.mpr ⟨parent, name, hk.target htarget, lookup_eq_ok_iff.mpr ⟨hlen, ?_⟩⟩, ?_⟩
  · exact content?_eq_some_iff.mp hc
  · rw [placeOf_of_target htarget, hc]

end EndpointAtlas.FileTree
