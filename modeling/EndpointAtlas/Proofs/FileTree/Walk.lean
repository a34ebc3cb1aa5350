import EndpointAtlas.FileTree.Edit
import EndpointAtlas.Proofs.Text.Pieces
import Mathlib.Data.List.Basic

/-! Following paths. A path is followed piece by piece (`walk`), from the top or from the current directory,
    and everything that is found at its end depends on that walk and on the last piece alone. -/

namespace EndpointAtlas.FileTree
open Text

/-- The pieces of a path that say something. -/
def pieces (path : Bytes) : List Bytes := (splitOn slash path).filter (· ≠ [])

/-- Where a path begins. -/
def origin (t : FileTree) (path : Bytes) : Place := if path.head? = some slash then [] else t.current

/-- Enters one directory after the other. -/
def walk (t : FileTree) (start : Place) (names : List Bytes) : Except FileError Place := names.foldlM t.enter start

/-- The file system follows the path: it is a path, and it is not too long. -/
structure IsFollowed (path : Bytes) : Prop where
  nul : 0 ∉ path
  nonempty : path ≠ []
  short : path.length ≤ maxPathLength

/-- A piece that names no entry of a directory. -/
def IsDots (name : Bytes) : Prop := name = [dot] ∨ name = [dot, dot]

theorem except_bind_eq_ok {ε α β : Type} {x : Except ε α} {f : α → Except ε β} {b : β} :
    (x >>= f) = .ok b ↔ ∃ a, x = .ok a ∧ f a = .ok b := by
  cases x with
  | error e =>
    constructor
    · intro h
      cases h
    · rintro ⟨_, h, -⟩
      cases h
  | ok a =>
    constructor
    · intro h
      exact ⟨a, rfl, h⟩
    · rintro ⟨_, ha, h⟩
      cases ha
      exact h

theorem toOption_eq_some_iff {ε α : Type} {x : Except ε α} {a : α} : x.toOption = some a ↔ x = .ok a := by
  cases x <;> simp [Except.toOption]

theorem walk_concat (t : FileTree) (p : Place) (names : List Bytes) (name : Bytes) :
    t.walk p (names ++ [name]) = t.walk p names >>= fun q => t.enter q name := by
  unfold walk
  simp only [List.foldlM_append, List.foldlM_cons, List.foldlM_nil, bind_pure]

theorem walk_concat_eq_ok {t : FileTree} {p q : Place} {names : List Bytes} {name : Bytes} :
    t.walk p (names ++ [name]) = .ok q ↔ ∃ r, t.walk p names = .ok r ∧ t.enter r name = .ok q := by
  rw [walk_concat, except_bind_eq_ok]

/-- A walk does not stop at a single dot. -/
theorem walk_filter_dot (t : FileTree) (p : Place) (names : List Bytes) :
    t.walk p (names.filter (· ≠ [dot])) = t.walk p names := by
  induction names generalizing p with
  | nil => rfl
  | cons name names ih =>
    by_cases hname : name = [dot]
    · rw [List.filter_cons_of_neg (by simp [hname]), ih, hname]
      rfl
    · rw [List.filter_cons_of_pos (by simp [hname])]
      unfold walk at ih ⊢
      rw [List.foldlM_cons, List.foldlM_cons]
      congr 1
      funext q
      exact ih q

/-! ### The end of a path -/

theorem target_eq {t : FileTree} {path : Bytes} (h : IsFollowed path) :
    t.target path = match (pieces path).getLast? with
      | none => .ok (.directory (t.origin path))
      | some last => do
        let parent ← t.walk (t.origin path) (pieces path).dropLast
        if last = [dot] ∨ last = [dot, dot] then return .directory (← t.enter parent last)
        else return .named parent last ((path.getLast? == some slash)) := by
  unfold target
  rw [if_neg h.nul, if_neg h.nonempty, if_neg (Nat.not_lt_of_le h.short)]
  rfl

theorem isFollowed_or_target_eq (t : FileTree) (path : Bytes) : IsFollowed path ∨
    t.target path = .error .nulInName ∨ (path = [] ∧ t.target path = .error .notFound) ∨
      t.target path = .error .nameTooLong := by
  unfold target
  by_cases hnul : 0 ∈ path
  · exact Or.inr (Or.inl (if_pos hnul))
  · rw [if_neg hnul]
    by_cases hnil : path = []
    · exact Or.inr (Or.inr (Or.inl ⟨hnil, if_pos hnil⟩))
    · rw [if_neg hnil]
      by_cases hlong : maxPathLength < path.length
      · exact Or.inr (Or.inr (Or.inr (if_pos hlong)))
      · exact Or.inl ⟨hnul, hnil, Nat.le_of_not_lt hlong⟩

theorem isFollowed_of_target {t : FileTree} {path : Bytes} {end_ : Target} (h : t.target path = .ok end_) :
    IsFollowed path := by
  rcases isFollowed_or_target_eq t path with hp | he | ⟨-, he⟩ | he
  · exact hp
  all_goals cases he.symm.trans h

theorem target_eq_named_iff {t : FileTree} {path : Bytes} (hp : IsFollowed path) {parent : Place} {name : Bytes}
    {slashed : Bool} : t.target path = .ok (.named parent name slashed) ↔
      ∃ names, pieces path = names ++ [name] ∧ ¬IsDots name ∧ t.walk (t.origin path) names = .ok parent ∧
        (path.getLast? == some slash) = slashed := by
  rw [target_eq hp]
  rcases List.eq_nil_or_concat' (pieces path) with hnil | ⟨names, last, hlast⟩
  · rw [hnil]
    simp
  · rw [hlast, List.getLast?_concat, List.dropLast_concat]
    constructor
    · intro h
      obtain ⟨q, hq, h⟩ := except_bind_eq_ok.mp h
      by_cases hdots : last = [dot] ∨ last = [dot, dot]
      · rw [if_pos hdots] at h
        obtain ⟨r, -, h⟩ := except_bind_eq_ok.mp h
        cases h
      · rw [if_neg hdots] at h
        cases h
        exact ⟨names, rfl, hdots, hq, rfl⟩
    · rintro ⟨names', heq, hdots, hq, hs⟩
      obtain ⟨rfl, hname⟩ := List.append_inj' heq rfl
      obtain rfl := List.singleton_inj.mp hname
      refine except_bind_eq_ok.mpr ⟨parent, hq, ?_⟩
      refine (if_neg hdots).trans ?_
      rw [hs]
      rfl

theorem lookup_eq_ok_iff {t : FileTree} {parent : Place} {name : Bytes} {e : Entry} :
    t.lookup parent name = .ok e ↔
      name.length ≤ maxNameLength ∧ t.get? (parent ++ [name]) = some e := by
  unfold lookup
  by_cases h : maxNameLength < name.length
  · rw [if_pos h]
    constructor
    · intro h'
      cases h'
    · rintro ⟨hle, -⟩
      exact absurd hle (Nat.not_le_of_lt h)
  · rw [if_neg h]
    cases t.get? (parent ++ [name]) with
    | none => simp
    | some d => simp [Nat.le_of_not_lt h]

/-- A piece that is no dots is entered exactly where it names a directory. -/
theorem enter_eq_ok_iff {t : FileTree} {p q : Place} {name : Bytes} (h : ¬IsDots name) :
    t.enter p name = .ok q ↔ t.lookup p name = .ok .directory ∧ q = p ++ [name] := by
  unfold enter
  rw [if_neg fun hd => h (Or.inl hd), if_neg fun hd => h (Or.inr hd), except_bind_eq_ok]
  constructor
  · rintro ⟨e, he, hq⟩
    cases e with
    | directory =>
      cases hq
      exact ⟨he, rfl⟩
    | file _ | locked => cases hq
  · rintro ⟨he, rfl⟩
    exact ⟨.directory, he, rfl⟩

theorem find_of_target {t : FileTree} {path : Bytes} {parent q : Place} {name : Bytes} {e : Entry}
    (h : t.target path = .ok (.named parent name false)) :
    t.find path = .ok (q, e) ↔ t.lookup parent name = .ok e ∧ q = parent ++ [name] := by
  rw [find, h]
  dsimp only [bind, Except.bind]
  cases t.lookup parent name with
  | error f => simp
  | ok d => cases d <;> simp [pure, Except.pure, eq_comm, and_comm]

theorem read_eq_ok_iff_find {t : FileTree} {path c : Bytes} :
    t.read path = .ok c ↔ ∃ q, t.find path = .ok (q, .file c) := by
  rw [read, except_bind_eq_ok]
  constructor
  · rintro ⟨⟨q, e⟩, hfind, h⟩
    cases e with
    | file d =>
      cases h
      exact ⟨q, hfind⟩
    | _ => cases h
  · rintro ⟨q, hfind⟩
    exact ⟨_, hfind, rfl⟩

/-- A file is read by a path that names it, without a slash behind the name. -/
theorem read_eq_ok_iff {t : FileTree} {path content : Bytes} : t.read path = .ok content ↔
    ∃ parent name, t.target path = .ok (.named parent name false) ∧ t.lookup parent name = .ok (.file content) := by
  rw [read_eq_ok_iff_find]
  constructor
  · rintro ⟨q, hfind⟩
    obtain ⟨target, htarget, hend⟩ := except_bind_eq_ok.mp hfind
    cases target with
    | directory p => cases hend
    | named parent name slashed =>
      cases slashed with
      | false => exact ⟨parent, name, htarget, ((find_of_target htarget).mp hfind).1⟩
      | true =>
        obtain ⟨e, -, hend⟩ := except_bind_eq_ok.mp hend
        cases e <;> cases hend
  · rintro ⟨parent, name, htarget, hlook⟩
    exact ⟨_, (find_of_target htarget).mpr ⟨hlook, rfl⟩⟩

/-- A path whose walk succeeds leads to a directory, and none can be made there. -/
theorem directory_of_walk {t : FileTree} {path : Bytes} (hp : IsFollowed path) {q : Place}
    (h : t.walk (t.origin path) (pieces path) = .ok q) :
    t.find path = .ok (q, .directory) ∧ t.makeDirectory path = .error .exists := by
  rcases List.eq_nil_or_concat' (pieces path) with hnil | ⟨names, last, hlast⟩
  · have htarget : t.target path = .ok (.directory (t.origin path)) := by
      rw [target_eq hp, hnil]
      rfl
    rw [hnil] at h
    cases h
    constructor
    · rw [find, htarget]
      rfl
    · rw [makeDirectory, htarget]
      rfl
  · rw [hlast] at h
    obtain ⟨r, hr, henter⟩ := walk_concat_eq_ok.mp h
    by_cases hdots : IsDots last
    · have htarget : t.target path = .ok (.directory q) := by
        rw [target_eq hp, hlast, List.getLast?_concat, List.dropLast_concat]
        refine except_bind_eq_ok.mpr ⟨r, hr, ?_⟩
        refine (if_pos hdots).trans ?_
        rw [henter]
        rfl
      constructor
      · rw [find, htarget]
        rfl
      · rw [makeDirectory, htarget]
        rfl
    · obtain ⟨hlook, rfl⟩ := (enter_eq_ok_iff hdots).mp henter
      have htarget := (target_eq_named_iff (t := t) hp).mpr ⟨names, hlast, hdots, hr, rfl⟩
      constructor
      · rw [find, htarget]
        refine except_bind_eq_ok.mpr ⟨_, rfl, ?_⟩
        exact except_bind_eq_ok.mpr ⟨_, hlook, rfl⟩
      · rw [makeDirectory, htarget]
        dsimp only [bind, Except.bind]
        rw [hlook]
        rfl

/-- A path leads to a directory exactly where its walk succeeds. -/
theorem directory?_eq_some_iff {t : FileTree} {path : Bytes} {q : Place} :
    t.directory? path = some q ↔ IsFollowed path ∧ t.walk (t.origin path) (pieces path) = .ok q := by
  constructor
  · intro h
    have hfind : t.find path = .ok (q, .directory) := by
      unfold directory? at h
      split at h
      · next p hfind =>
        cases h
        exact hfind
      · cases h
    obtain ⟨end_, htarget, hend⟩ := except_bind_eq_ok.mp hfind
    have hp := isFollowed_of_target htarget
    refine ⟨hp, ?_⟩
    cases end_ with
    | directory p =>
      cases hend
      rw [target_eq hp] at htarget
      rcases List.eq_nil_or_concat' (pieces path) with hnil | ⟨names, last, hlast⟩
      · rw [hnil] at htarget ⊢
        cases htarget
        rfl
      · rw [hlast, List.getLast?_concat, List.dropLast_concat] at htarget
        rw [hlast, walk_concat_eq_ok]
        obtain ⟨r, hr, htarget⟩ := except_bind_eq_ok.mp htarget
        refine ⟨r, hr, ?_⟩
        split at htarget
        · obtain ⟨p, henter, hp⟩ := except_bind_eq_ok.mp htarget
          cases hp
          exact henter
        · cases htarget
    | named parent name slashed =>
      obtain ⟨names, hpieces, hdots, hwalk, -⟩ := (target_eq_named_iff hp).mp htarget
      obtain ⟨e, hlook, hend⟩ := except_bind_eq_ok.mp hend
      rw [hpieces]
      cases e with
      | directory =>
        cases hend
        exact walk_concat_eq_ok.mpr ⟨parent, hwalk, (enter_eq_ok_iff hdots).mpr ⟨hlook, rfl⟩⟩
      | file _ | locked => cases slashed <;> cases hend
  · rintro ⟨hp, h⟩
    unfold directory?
    rw [(directory_of_walk hp h).1]

end EndpointAtlas.FileTree
