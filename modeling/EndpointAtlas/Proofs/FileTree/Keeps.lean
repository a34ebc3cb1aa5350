import EndpointAtlas.Proofs.FileTree.Place

/-! What an edit leaves of a tree. A directory is made where nothing is, and a file is written at the place that
    its path tells; everything else stays (`Keeps`). -/

namespace EndpointAtlas.FileTree
open Text

/-- What holds of `t` after edits that write files at the places in `W` only: `u` still has all directories
    of `t` and the same locked files, and the other files of both are the same but for those places, where a
    file stays a file. -/
structure Keeps (W : List Place) (t u : FileTree) : Prop where
  current : u.current = t.current
  directory : ∀ p, t.get? p = some .directory → u.get? p = some .directory
  content : ∀ p ∉ W, u.content? p = t.content? p
  file : ∀ p, (t.content? p).isSome → (u.content? p).isSome
  locked : ∀ p, u.get? p = some .locked ↔ t.get? p = some .locked
  isTree : t.IsTree → u.IsTree

namespace Keeps
variable {W : List Place} {t u v : FileTree}

theorem refl (t : FileTree) : Keeps W t t := ⟨rfl, fun _ => id, fun _ _ => rfl, fun _ => id, fun _ => Iff.rfl, id⟩

theorem trans (h : Keeps W t u) (h' : Keeps W u v) : Keeps W t v where
  current := h'.current.trans h.current
  directory p hp := h'.directory p (h.directory p hp)
  content p hp := (h'.content p hp).trans (h.content p hp)
  file p hp := h'.file p (h.file p hp)
  locked p := (h'.locked p).trans (h.locked p)
  isTree ht := h'.isTree (h.isTree ht)

theorem mono {W' : List Place} (h : Keeps W t u) (hsub : W ⊆ W') : Keeps W' t u :=
  { h with content := fun p hp => h.content p fun hW => hp (hsub hW) }

variable {p q : Place} {name : Bytes} {names : List Bytes}

theorem file?_eq (h : Keeps W t u) (hp : p ∉ W) : u.file? p = t.file? p := by
  refine Option.ext fun e => ?_
  rw [file?_eq_some_iff, file?_eq_some_iff]
  refine and_congr_left fun hfile => ?_
  cases e with
  | file c => rw [← content?_eq_some_iff, ← content?_eq_some_iff, h.content p hp]
  | locked => exact h.locked p
  | directory => exact absurd rfl hfile

/-- Where there is a file there still is one. -/
theorem isSome_file? (h : Keeps W t u) (hp : (t.file? p).isSome) : (u.file? p).isSome := by
  obtain ⟨e, he⟩ := Option.isSome_iff_exists.mp hp
  obtain ⟨hget, hfile⟩ := file?_eq_some_iff.mp he
  cases e with
  | file c =>
    obtain ⟨d, hd⟩ := Option.isSome_iff_exists.mp (h.file p (by rw [content?_eq_some_iff.mpr hget]; rfl))
    rw [file?_eq_some_iff.mpr ⟨content?_eq_some_iff.mp hd, by simp⟩]
    rfl
  | locked =>
    rw [file?_eq_some_iff.mpr ⟨(h.locked p).mpr hget, by simp⟩]
    rfl
  | directory => exact absurd rfl hfile

theorem enter (h : Keeps W t u) (henter : t.enter p name = .ok q) : u.enter p name = .ok q := by
  by_cases hdots : IsDots name
  · rcases hdots with rfl | rfl <;> exact henter
  · obtain ⟨hlook, rfl⟩ := (enter_eq_ok_iff hdots).mp henter
    obtain ⟨hlen, hget⟩ := lookup_eq_ok_iff.mp hlook
    exact (enter_eq_ok_iff hdots).mpr ⟨lookup_eq_ok_iff.mpr ⟨hlen, h.directory _ hget⟩, rfl⟩

theorem walk (h : Keeps W t u) (hwalk : t.walk p names = .ok q) : u.walk p names = .ok q := by
  induction names using List.reverseRecOn generalizing q with
  | nil => exact hwalk
  | append_singleton names name ih =>
    obtain ⟨r, hr, henter⟩ := walk_concat_eq_ok.mp hwalk
    exact walk_concat_eq_ok.mpr ⟨r, ih hr, h.enter henter⟩

theorem origin (h : Keeps W t u) (path : Bytes) : u.origin path = t.origin path := by
  unfold FileTree.origin
  rw [h.current]

theorem placeOf (h : Keeps W t u) (path : Bytes) : u.placeOf path = t.placeOf path := placeOf_congr h.current path

theorem target (h : Keeps W t u) {path : Bytes} {parent : Place} {slashed : Bool}
    (htarget : t.target path = .ok (.named parent name slashed)) : u.target path = .ok (.named parent name slashed) := by
  have hp := isFollowed_of_target htarget
  obtain ⟨names, hpieces, hdots, hwalk, hs⟩ := (target_eq_named_iff hp).mp htarget
  exact (target_eq_named_iff hp).mpr ⟨names, hpieces, hdots, h.origin path ▸ h.walk hwalk, hs⟩

end Keeps

variable {t u : FileTree} {path : Bytes} {content : Bytes}

/-! ### Single edits -/

theorem lookup_eq_notFound {parent : Place} {name : Bytes}
    (h : t.lookup parent name = .error .notFound) :
    name.length ≤ maxNameLength ∧ t.get? (parent ++ [name]) = none := by
  unfold lookup at h
  by_cases hlen : maxNameLength < name.length
  · rw [if_pos hlen] at h
    cases h
  · rw [if_neg hlen] at h
    refine ⟨Nat.le_of_not_lt hlen, ?_⟩
    cases hget : t.get? (parent ++ [name]) with
    | none => rfl
    | some e =>
      rw [hget] at h
      cases h

theorem makeDirectory_eq_ok_iff : t.makeDirectory path = .ok u ↔ ∃ parent name slashed,
    t.target path = .ok (.named parent name slashed) ∧ t.lookup parent name = .error .notFound ∧
      u = t.put (parent ++ [name]) .directory := by
  unfold makeDirectory
  rw [except_bind_eq_ok]
  constructor
  · rintro ⟨target, htarget, h⟩
    cases target with
    | directory q => cases h
    | named parent name slashed =>
      dsimp only at h
      split at h
      · cases h
      · next hlook =>
        cases h
        exact ⟨parent, name, slashed, htarget, hlook, rfl⟩
      · cases h
  · rintro ⟨parent, name, slashed, htarget, hlook, rfl⟩
    refine ⟨_, htarget, ?_⟩
    simp only [hlook]
    rfl

/-- A file is written where there is a file or nothing. -/
theorem write_eq_ok_iff : t.write path content = .ok u ↔
    ∃ parent name, t.target path = .ok (.named parent name false) ∧
      ((∃ c, t.lookup parent name = .ok (.file c)) ∨ t.lookup parent name = .error .notFound) ∧
      u = t.put (parent ++ [name]) (.file content) := by
  unfold write
  rw [except_bind_eq_ok]
  constructor
  · rintro ⟨target, htarget, h⟩
    cases target with
    | directory q => cases h
    | named parent name slashed =>
      cases slashed with
      | true => cases h
      | false =>
        refine ⟨parent, name, htarget, ?_⟩
        simp only [Bool.false_eq_true, if_false] at h
        split at h
        · cases h
        · cases h
        · next c hlook =>
          cases h
          exact ⟨Or.inl ⟨c, hlook⟩, rfl⟩
        · next hlook =>
          cases h
          exact ⟨Or.inr hlook, rfl⟩
        · cases h
  · rintro ⟨parent, name, htarget, ⟨c, hlook⟩ | hlook, rfl⟩
    · refine ⟨_, htarget, ?_⟩
      simp only [Bool.false_eq_true, if_false, hlook]
      rfl
    · refine ⟨_, htarget, ?_⟩
      simp only [Bool.false_eq_true, if_false, hlook]
      rfl

theorem isName_of_target {parent : Place} {name : Bytes} {slashed : Bool}
    (h : t.target path = .ok (.named parent name slashed)) : IsName name := by
  obtain ⟨names, hpieces, hdots, -, -⟩ := (target_eq_named_iff (isFollowed_of_target h)).mp h
  obtain ⟨-, hne, hslash⟩ := mem_pieces (hpieces ▸ List.mem_append_right names List.mem_cons_self)
  exact ⟨hne, hslash, hdots⟩

theorem IsTree.get?_of_target (ht : t.IsTree) {parent : Place} {name : Bytes} {slashed : Bool}
    (h : t.target path = .ok (.named parent name slashed)) : t.get? parent = some .directory := by
  obtain ⟨names, -, -, hwalk, -⟩ := (target_eq_named_iff (isFollowed_of_target h)).mp h
  exact ht.get?_of_walk (ht.get?_origin path) hwalk

theorem content?_put {p : Place} (hp : p ≠ []) (e : Entry) (q : Place) :
    (t.put p e).content? q = if q = p then (match e with | .file c => some c | _ => none)
      else t.content? q := by
  unfold content?
  rw [get?_put t e hp]
  by_cases hq : q = p
  · rw [if_pos hq, if_pos hq]
    cases e <;> rfl
  · rw [if_neg hq, if_neg hq]

theorem keeps_makeDirectory (h : t.makeDirectory path = .ok u) : Keeps [] t u := by
  obtain ⟨parent, name, slashed, htarget, hlook, rfl⟩ := makeDirectory_eq_ok_iff.mp h
  have hne : parent ++ [name] ≠ [] := by simp
  have hnone := (lookup_eq_notFound hlook).2
  have hlocked : ∀ q, (t.put (parent ++ [name]) .directory).get? q = some .locked ↔ t.get? q = some .locked := by
    intro q
    rw [get?_put t _ hne]
    split
    · next hq => simp [hq, hnone]
    · rfl
  have hcontent : ∀ q, (t.put (parent ++ [name]) .directory).content? q = t.content? q := by
    intro q
    rw [content?_put hne]
    split
    · next hq =>
      rw [hq, content?, hnone]
    · rfl
  refine ⟨rfl, fun q hq => ?_, fun q _ => hcontent q, fun q hq => (hcontent q).symm ▸ hq, hlocked, fun ht => ?_⟩
  · rw [get?_put t _ hne]
    split
    · rfl
    · exact hq
  · exact ht.put (ht.get?_of_target htarget) (isName_of_target htarget) (by simp [hnone])

theorem keeps_write (h : t.write path content = .ok u) : Keeps [t.placeOf path] t u := by
  obtain ⟨parent, name, htarget, hlook, rfl⟩ := write_eq_ok_iff.mp h
  have hne : parent ++ [name] ≠ [] := by simp
  have hplace : t.get? (parent ++ [name]) ≠ some .directory ∧ t.get? (parent ++ [name]) ≠ some .locked := by
    rcases hlook with ⟨c, hlook⟩ | hlook
    · simp [(lookup_eq_ok_iff.mp hlook).2]
    · simp [(lookup_eq_notFound hlook).2]
  rw [placeOf_of_target htarget]
  refine ⟨rfl, fun q hq => ?_, fun q hq => ?_, fun q hq => ?_, fun q => ?_, fun ht => ?_⟩
  · rw [get?_put t _ hne, if_neg, hq]
    rintro rfl
    exact hplace.1 hq
  · rw [content?_put hne, if_neg (by simpa using hq)]
  · rw [content?_put hne]
    split
    · rfl
    · exact hq
  · rw [get?_put t _ hne]
    split
    · next hq => simp [hq, hplace.2]
    · rfl
  · exact ht.put (ht.get?_of_target htarget) (isName_of_target htarget) hplace.1

theorem content?_write (h : t.write path content = .ok u) : u.content? (t.placeOf path) = some content := by
  obtain ⟨parent, name, htarget, -, rfl⟩ := write_eq_ok_iff.mp h
  rw [placeOf_of_target htarget, content?_put (by simp), if_pos rfl]

end EndpointAtlas.FileTree
