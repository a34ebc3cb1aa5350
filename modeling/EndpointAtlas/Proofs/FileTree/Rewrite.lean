import EndpointAtlas.Proofs.FileTree.Keeps

/-! Writing a file and reading it. What was written is what is read afterwards, and a file that is written
    with the content it has leaves the tree as it is: its directory is there, so that none is made. -/

namespace EndpointAtlas

namespace FileTree
open Text

/-! ### What is written is read -/

theorem read_of_write {t u : FileTree} {path : Bytes} {content : Bytes} (h : t.write path content = .ok u) :
    u.read path = .ok content := by
  have hkeep := keeps_write h
  obtain ⟨parent, name, htarget, hlook, rfl⟩ := write_eq_ok_iff.mp h
  have hlen : name.length ≤ maxNameLength := by
    rcases hlook with ⟨c, hlook⟩ | hlook
    · exact (lookup_eq_ok_iff.mp hlook).1
    · exact (lookup_eq_notFound hlook).1
  refine read_eq_ok_iff.mpr ⟨parent, name, hkeep.target htarget, lookup_eq_ok_iff.mpr ⟨hlen, ?_⟩⟩
  rw [get?_put t _ (by simp), if_pos rfl]

/-! ### Writing what is there -/

theorem write_of_read {t : FileTree} {path : Bytes} {content : Bytes} (h : t.read path = .ok content) :
    t.write path content = .ok t := by
  obtain ⟨parent, name, htarget, hlook⟩ := read_eq_ok_iff.mp h
  refine write_eq_ok_iff.mpr ⟨parent, name, htarget, Or.inl ⟨content, hlook⟩, ?_⟩
  have hget : Keyed.get? (parent ++ [name]) t.entries = some (.file content) := by
    have := (lookup_eq_ok_iff.mp hlook).2
    cases hplace : parent ++ [name] with
    | nil => simp at hplace
    | cons n p =>
      rw [hplace] at this
      exact this
  rw [put, Keyed.set_eq_self hget]

/-! ### What an edit leaves -/

section Steps

variable {ε σ α β : Type} {x : ExceptT ε (StateM σ) α} {s u : σ}

theorem run_bind_eq (x : ExceptT ε (StateM σ) α) (f : α → ExceptT ε (StateM σ) β) (s : σ) :
    (x >>= f).run.run s =
      match x.run.run s with
      | (.ok a, u) => (f a).run.run u
      | (.error e, u) => (.error e, u) := by
  rw [ExceptT.run_bind, StateT.run_bind]
  generalize x.run.run s = r
  obtain ⟨e | a, u⟩ := r <;> rfl

theorem run_bind_of_ok {f : α → ExceptT ε (StateM σ) β} {a : α} (h : x.run.run s = (.ok a, u)) :
    (x >>= f).run.run s = (f a).run.run u := by
  rw [run_bind_eq, h]

theorem run_bind_eq_ok {f : α → ExceptT ε (StateM σ) β} {b : β} (h : (x >>= f).run.run s = (.ok b, u)) :
    ∃ a v, x.run.run s = (.ok a, v) ∧ (f a).run.run v = (.ok b, u) := by
  rw [ExceptT.run_bind, StateT.run_bind] at h
  generalize hx : x.run.run s = r at h
  obtain ⟨e | a, v⟩ := r
  · cases h
  · exact ⟨a, v, rfl, h⟩

theorem run_tryCatch_of_error {f : ε → ExceptT ε (StateM σ) α} {e : ε} (h : x.run.run s = (.error e, u)) :
    (tryCatch x f).run.run s = (f e).run.run u := by
  rw [ExceptT.run_tryCatch, StateT.run_bind, h]
  rfl

end Steps

theorem run_get (t : FileTree) : (get : ExceptT FileError (StateM FileTree) FileTree).run.run t = (.ok t, t) := rfl

theorem run_edit_of_ok {change : FileTree → Except FileError FileTree} {t u : FileTree} (h : change t = .ok u) :
    (edit change).run.run t = (.ok (), u) := by
  rw [edit, run_bind_of_ok (run_get t), h]
  rfl

theorem run_edit_of_error {change : FileTree → Except FileError FileTree} {t : FileTree} {e : FileError}
    (h : change t = .error e) : (edit change).run.run t = (.error e, t) := by
  rw [edit, run_bind_of_ok (run_get t), h]
  rfl

/-- Nothing is made where there is a directory. -/
theorem run_requireDirectory {t : FileTree} {path : Bytes} {e : FileError} (h : t.makeDirectory path = .error e)
    {p : Place} (hdir : t.find path = .ok (p, .directory)) : (requireDirectory path).run.run t = (.ok (), t) := by
  have hsome : (t.directory? path).isSome = true := by
    rw [directory?, hdir]
    rfl
  have hedit : (edit fun t => t.makeDirectory path).run.run t = (.error e, t) := run_edit_of_error h
  rw [requireDirectory, run_tryCatch_of_error hedit]
  show (unless (t.directory? path).isSome do throw e : Edit).run.run t = _
  rw [hsome]
  rfl

theorem run_makeDirectories {t : FileTree} {parts : List Part} {p : Place}
    (hfind : t.find (Path.toBytes parts.reverse) = .ok (p, .directory))
    (hmake : t.makeDirectory (Path.toBytes parts.reverse) = .error .exists) :
    (makeDirectories parts).run.run t = (.ok (), t) := by
  cases parts with
  | nil => rfl
  | cons part above =>
    rw [makeDirectories, run_bind_of_ok (run_get t), hmake]
    exact run_requireDirectory hmake hfind

theorem writeWithin_eq (path : Bytes) (content : Bytes) : writeWithin path content =
    (match (Path.ofBytes path).parent? with
      | some parent => makeDirectories parent.reverse
      | none => pure ()) >>= fun _ => edit (·.write path content) := by
  unfold writeWithin
  cases (Path.ofBytes path).parent? with
  | none => rfl
  | some p => rfl

/-- No directory is made for a path that names an entry of one. -/
theorem run_writeWithin_of_target {t : FileTree} {path : Bytes} {parent : Place} {name : Bytes} {slashed : Bool}
    (h : t.target path = .ok (.named parent name slashed)) (content : Bytes) :
    (writeWithin path content).run.run t = (edit (·.write path content)).run.run t := by
  obtain ⟨p, hparent, hdir⟩ := directory_of_parent h
  have hmade : (makeDirectories p.reverse).run.run t = (.ok (), t) := by
    by_cases hp : p = []
    · rw [hp]
      rfl
    · obtain ⟨hfind, hmake⟩ := hdir hp
      rw [← List.reverse_reverse p] at hfind hmake
      exact run_makeDirectories hfind hmake
  rw [writeWithin_eq, hparent, run_bind_of_ok hmade]

/-- Writing a file with the content it has changes nothing. -/
theorem run_writeWithin_of_read {t : FileTree} {path : Bytes} {content : Bytes} (h : t.read path = .ok content) :
    (writeWithin path content).run.run t = (.ok (), t) := by
  obtain ⟨parent, name, htarget, -⟩ := read_eq_ok_iff.mp h
  rw [run_writeWithin_of_target htarget]
  exact run_edit_of_ok (write_of_read h)

/-- What was written is read. -/
theorem read_of_run_writeWithin {t u : FileTree} {path : Bytes} {content : Bytes}
    (h : (writeWithin path content).run.run t = (.ok (), u)) : u.read path = .ok content := by
  rw [writeWithin_eq] at h
  obtain ⟨-, s, -, hs⟩ := run_bind_eq_ok h
  cases hwrite : s.write path content with
  | ok v =>
    rw [run_edit_of_ok hwrite] at hs
    cases hs
    exact read_of_write hwrite
  | error e =>
    rw [run_edit_of_error hwrite] at hs
    cases hs

end FileTree

/-! ### Documents below a base directory -/

namespace Storage
open FileTree

variable {base name : Text} {content : Bytes} {t u : FileTree}

theorem run_read_below (h : t.read (joinPath base name) = .ok content) :
    ((below base).read name).run.run t = (.ok content, t) := by
  have hget : (get : Task FileTree FileTree).run.run t = (.ok t, t) := rfl
  rw [below, run_bind_of_ok hget, h]
  rfl

theorem run_write_below_of_read (h : t.read (joinPath base name) = .ok content) :
    ((below base).write name content).run.run t = (.ok (), t) := by
  have hwrite := run_writeWithin_of_read h
  show ((writeWithin (joinPath base name) content).adapt Fault.file).run.run t = _
  rw [ExceptT.run_adapt, StateT.run_map, hwrite]
  rfl

theorem read_of_run_write_below (h : ((below base).write name content).run.run t = (.ok (), u)) :
    u.read (joinPath base name) = .ok content := by
  refine read_of_run_writeWithin (t := t) ?_
  replace h : ((writeWithin (joinPath base name) content).adapt Fault.file).run.run t = (.ok (), u) := h
  rw [ExceptT.run_adapt, StateT.run_map] at h
  generalize (writeWithin (joinPath base name) content).run.run t = r at h ⊢
  obtain ⟨e | a, v⟩ := r
  · cases h
  · cases h
    rfl

end Storage

end EndpointAtlas
