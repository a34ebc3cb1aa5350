import EndpointAtlas.Proofs.SourceTree.Candidates
import Mathlib.Data.List.Dedup

/-! Walking a tree depth first. A directory is visited before what lies in it, and what lies in one entry before the
    next entry. Whatever order the entries of a directory come in, the walk visits whatever lies in directories that can
    be listed once, and with the names in order the places come in the order of their names, the first name that differs
    deciding. -/

namespace EndpointAtlas

/-! ### Places in order -/

/-- Two places go different ways at some directory, by names in the relation `R`. -/
def Place.Branch (R : Bytes → Bytes → Prop) (p q : Place) : Prop :=
  ∃ front a b x y, p = front ++ a :: x ∧ q = front ++ b :: y ∧ R a b

/-- A walk visits `p` before `q`: below it, or another way. -/
def Place.Ahead (R : Bytes → Bytes → Prop) (p q : Place) : Prop := (p <+: q ∧ p ≠ q) ∨ Place.Branch R p q

/-- The names of a directory one before another, in their order if they are sorted. -/
def nameOrder (sorted : Bool) (a b : Bytes) : Prop := if sorted then a < b else a ≠ b

namespace Place
variable {R : Bytes → Bytes → Prop} {p q : Place}

theorem Branch.append_left (h : Branch R p q) (r : Place) : Branch R (p ++ r) q := by
  obtain ⟨front, a, b, x, y, rfl, rfl, hab⟩ := h
  exact ⟨front, a, b, x ++ r, y, by simp, rfl, hab⟩

theorem Branch.append_right (h : Branch R p q) (r : Place) : Branch R p (q ++ r) := by
  obtain ⟨front, a, b, x, y, rfl, rfl, hab⟩ := h
  exact ⟨front, a, b, x, y ++ r, rfl, by simp, hab⟩

theorem Ahead.ne (hR : ∀ a, ¬R a a) (h : Ahead R p q) : p ≠ q := by
  rcases h with ⟨-, hne⟩ | ⟨front, a, b, x, y, rfl, rfl, hab⟩
  · exact hne
  · intro heq
    obtain rfl := (List.cons.inj (List.append_cancel_left heq)).1
    exact hR a hab

theorem nameOrder_irrefl (sorted : Bool) (a : Bytes) : ¬nameOrder sorted a a := by
  cases sorted with
  | false => simp [nameOrder]
  | true => exact List.lt_irrefl _

theorem Ahead.lt (h : Ahead (nameOrder true) p q) : p < q := by
  rcases h with ⟨⟨r, rfl⟩, hne⟩ | ⟨front, a, b, x, y, rfl, rfl, hab⟩
  · cases r with
    | nil => simp at hne
    | cons n r =>
      have hless := @List.append_left_lt _ _ p _ _ (List.nil_lt_cons n r)
      rwa [List.append_nil] at hless
  · exact List.append_left_lt (List.Lex.rel hab)

end Place

/-! ### The walk -/

/-- From the places that wait to those that are visited. A place that is entered is followed by what is listed in it. -/
inductive Walks (entered : Place → Prop) (lists : Place → List Bytes → Prop) : List Place → List Place → Prop where
  | done : Walks entered lists [] []
  | leaf {p : Place} {ps qs : List Place} (hp : ¬entered p) (hrest : Walks entered lists ps qs) :
      Walks entered lists (p :: ps) (p :: qs)
  | directory {p : Place} {names : List Bytes} {ps qs : List Place} (hp : entered p) (hnames : lists p names)
      (hrest : Walks entered lists (names.map (fun n => p ++ [n]) ++ ps) qs) : Walks entered lists (p :: ps) (p :: qs)

namespace Walks
variable {entered : Place → Prop} {lists : Place → List Bytes → Prop} {R : Bytes → Bytes → Prop} {ps qs : List Place}
  {p q s : Place}

/-- What is visited lies below a place that waited. -/
theorem exists_above (h : Walks entered lists ps qs) (hq : q ∈ qs) : ∃ s ∈ ps, s <+: q := by
  induction h with
  | done => cases hq
  | @leaf p ps qs hp hrest ih =>
    rcases List.mem_cons.mp hq with rfl | hq
    · exact ⟨q, by simp, List.prefix_rfl⟩
    · obtain ⟨s, hs, hbelow⟩ := ih hq
      exact ⟨s, List.mem_cons_of_mem _ hs, hbelow⟩
  | @directory p names ps qs hp hnames hrest ih =>
    rcases List.mem_cons.mp hq with rfl | hq
    · exact ⟨q, by simp, List.prefix_rfl⟩
    · obtain ⟨s, hs, hbelow⟩ := ih hq
      rcases List.mem_append.mp hs with hs | hs
      · obtain ⟨n, -, rfl⟩ := List.mem_map.mp hs
        exact ⟨p, by simp, (List.prefix_append p [n]).trans hbelow⟩
      · exact ⟨s, List.mem_cons_of_mem _ hs, hbelow⟩

/-- What is visited waited from the start, or the place above it is entered. -/
theorem mem_or_entered (h : Walks entered lists ps qs) (hq : q ∈ qs) : q ∈ ps ∨ entered q.dropLast := by
  induction h with
  | done => cases hq
  | @leaf p ps qs hp hrest ih =>
    rcases List.mem_cons.mp hq with rfl | hq
    · exact Or.inl List.mem_cons_self
    · exact (ih hq).imp_left (List.mem_cons_of_mem _)
  | @directory p names ps qs hp hnames hrest ih =>
    rcases List.mem_cons.mp hq with rfl | hq
    · exact Or.inl List.mem_cons_self
    · rcases ih hq with hwaits | hentered
      · rcases List.mem_append.mp hwaits with hnew | hold
        · obtain ⟨n, -, rfl⟩ := List.mem_map.mp hnew
          exact Or.inr (by rwa [List.dropLast_concat])
        · exact Or.inl (List.mem_cons_of_mem _ hold)
      · exact Or.inr hentered

/-- A place is visited if all on the way to it from one that waits is entered and listed. -/
theorem mem_of_above (h : Walks entered lists ps qs) (hs : s ∈ ps) (hbelow : s <+: q)
    (hway : ∀ p n, s <+: p → p ++ [n] <+: q → entered p ∧ ∀ names, lists p names → n ∈ names) : q ∈ qs := by
  induction h generalizing s with
  | done => cases hs
  | @leaf p ps qs hp hrest ih =>
    rcases List.mem_cons.mp hs with rfl | hs
    · obtain ⟨_ | ⟨n, r⟩, rfl⟩ := hbelow
      · simp
      · exact absurd (hway s n List.prefix_rfl ⟨r, by simp⟩).1 hp
    · exact List.mem_cons_of_mem _ (ih hs hbelow hway)
  | @directory p names ps qs hp hnames hrest ih =>
    rcases List.mem_cons.mp hs with rfl | hs
    · obtain ⟨_ | ⟨n, r⟩, rfl⟩ := hbelow
      · simp
      · have hnext : s ++ [n] <+: s ++ n :: r := ⟨r, by simp⟩
        have hname : n ∈ names := (hway s n List.prefix_rfl hnext).2 names hnames
        refine List.mem_cons_of_mem _ (ih (List.mem_append_left _ (List.mem_map_of_mem hname)) hnext ?_)
        exact fun p m hp hm => hway p m ((List.prefix_append s [n]).trans hp) hm
    · exact List.mem_cons_of_mem _ (ih (List.mem_append_right _ hs) hbelow hway)

/-- Where the places that wait go different ways, what is visited first stays ahead. -/
theorem pairwise (hR : ∀ p names, lists p names → names.Pairwise R) (h : Walks entered lists ps qs)
    (hps : ps.Pairwise (Place.Branch R)) : qs.Pairwise (Place.Ahead R) := by
  induction h with
  | done => exact List.Pairwise.nil
  | @leaf p ps qs hp hrest ih =>
    obtain ⟨hfirst, hlater⟩ := List.pairwise_cons.mp hps
    refine List.pairwise_cons.mpr ⟨fun q hq => ?_, ih hlater⟩
    obtain ⟨s, hs, r, rfl⟩ := hrest.exists_above hq
    exact Or.inr ((hfirst s hs).append_right r)
  | @directory p names ps qs hp hnames hrest ih =>
    obtain ⟨hfirst, hlater⟩ := List.pairwise_cons.mp hps
    have hwaiting : (names.map (fun n => p ++ [n]) ++ ps).Pairwise (Place.Branch R) := by
      refine List.pairwise_append.mpr ⟨?_, hlater, ?_⟩
      · exact List.Pairwise.map _ (fun a b hab => ⟨p, a, b, [], [], rfl, rfl, hab⟩) (hR p names hnames)
      · intro s hs s' hs'
        obtain ⟨n, -, rfl⟩ := List.mem_map.mp hs
        exact (hfirst s' hs').append_left [n]
    refine List.pairwise_cons.mpr ⟨fun q hq => ?_, ih hwaiting⟩
    obtain ⟨s, hs, r, rfl⟩ := hrest.exists_above hq
    rcases List.mem_append.mp hs with hs | hs
    · obtain ⟨n, -, rfl⟩ := List.mem_map.mp hs
      exact Or.inl ⟨⟨n :: r, by simp⟩, by simp⟩
    · exact Or.inr ((hfirst s hs).append_right r)

/-- A walk from one more place. The induction is on how much longer than `p` a place can be that is entered. -/
theorem exists_cons (hlists : ∀ p, ∃ names, lists p names) {depth : Nat}
    (hdepth : ∀ q, entered q → q.length < p.length + depth) (h : Walks entered lists ps qs) :
    ∃ qs', Walks entered lists (p :: ps) qs' := by
  induction depth generalizing p ps qs with
  | zero => exact ⟨_, .leaf (fun hp => Nat.lt_irrefl _ (hdepth p hp)) h⟩
  | succ depth ih =>
    have hall : ∀ names : List Bytes, ∃ qs', Walks entered lists (names.map (fun n => p ++ [n]) ++ ps) qs' := by
      intro names
      induction names with
      | nil => exact ⟨qs, h⟩
      | cons n names ihnames =>
        obtain ⟨qs', h'⟩ := ihnames
        exact ih (fun q hq => by simpa [Nat.add_assoc, Nat.add_comm 1] using hdepth q hq) h'
    by_cases hp : entered p
    · obtain ⟨names, hnames⟩ := hlists p
      obtain ⟨qs', h'⟩ := hall names
      exact ⟨_, .directory hp hnames h'⟩
    · exact ⟨_, .leaf hp h⟩

end Walks

/-! ### Walks of a tree -/

namespace FileTree

/-- A walk goes into a directory that can be listed. -/
def IsEntered (t : FileTree) (root : Bytes) (place p : Place) : Prop :=
  t.get? (place ++ p) = some .directory ∧ t.isListed root p = true

/-- The names of the entries of a directory, and of the links in it, each once. -/
structure IsListing (t : FileTree) (place : Place) (links : List Place) (sorted : Bool) (p : Place)
    (names : List Bytes) : Prop where
  order : names.Pairwise (nameOrder sorted)
  mem_iff : ∀ n, n ∈ names ↔ (t.get? (place ++ (p ++ [n]))).isSome ∨ p ++ [n] ∈ links

/-- The places that a walk visits below a root that leads to `place`. There may be links below it, none of which is
    followed. -/
def IsWalk (t : FileTree) (root : Bytes) (place : Place) (links : List Place) (sorted : Bool) (visited : List Place) :
    Prop :=
  Walks (t.IsEntered root place) (t.IsListing place links sorted) [[]] visited

variable {t : FileTree} {root : Bytes} {place p : Place} {links visited : List Place} {sorted : Bool}

/-- Names that are sorted are a listing whether they have to be or not. -/
theorem exists_isListing (t : FileTree) (place : Place) (links : List Place) (sorted : Bool) (p : Place) :
    ∃ names, t.IsListing place links sorted p names := by
  let places := Keyed.keys t.entries ++ links.map (place ++ ·)
  let found := (places.filter (·.dropLast = place ++ p)).filterMap List.getLast?
  have hget : ∀ n, (t.get? (place ++ (p ++ [n]))).isSome ↔ place ++ (p ++ [n]) ∈ Keyed.keys t.entries := by
    intro n
    rw [Keyed.mem_keys_iff_isSome]
    cases h : place ++ (p ++ [n]) with
    | nil => simp at h
    | cons m q => rfl
  have hplaces : ∀ n, place ++ (p ++ [n]) ∈ places ↔ (t.get? (place ++ (p ++ [n]))).isSome ∨ p ++ [n] ∈ links := by
    intro n
    rw [hget, List.mem_append, List.mem_map_of_injective (List.append_right_injective place)]
  have hmem : ∀ n, n ∈ found ↔ (t.get? (place ++ (p ++ [n]))).isSome ∨ p ++ [n] ∈ links := by
    intro n
    rw [← hplaces]
    simp only [found, List.mem_filterMap, List.mem_filter, decide_eq_true_eq]
    constructor
    · rintro ⟨q, ⟨hq, hdrop⟩, hlast⟩
      rw [← List.append_assoc, ← hdrop]
      rwa [List.dropLast_append_getLast? n hlast]
    · intro hq
      rw [← List.append_assoc] at hq
      exact ⟨_, ⟨hq, List.dropLast_concat⟩, List.getLast?_concat⟩
  have hperm := List.mergeSort_perm found.dedup (fun a b => decide (a ≤ b))
  refine ⟨found.dedup.mergeSort, ?_, fun n => by rw [hperm.mem_iff, List.mem_dedup, hmem]⟩
  have hsorted := List.pairwise_mergeSort' (· ≤ ·) found.dedup
  refine (hsorted.and (hperm.nodup_iff.mpr (List.nodup_dedup found))).imp fun {a b} h => ?_
  cases sorted with
  | false => exact h.2
  | true => exact List.not_le.mp fun hle => h.2 (List.le_antisymm h.1 hle)

/-- Every tree can be walked. -/
theorem exists_isWalk (t : FileTree) (root : Bytes) (place : Place) (links : List Place) (sorted : Bool) :
    ∃ visited, t.IsWalk root place links sorted visited := by
  have hdepth : ∀ q, t.IsEntered root place q →
      q.length < ([] : Place).length + ((Keyed.keys t.entries).flatten.length + 1) := by
    rintro q ⟨hq, -⟩
    rw [List.length_nil, Nat.zero_add, Nat.lt_succ_iff]
    cases hcons : place ++ q with
    | nil => simp [(List.append_eq_nil_iff.mp hcons).2]
    | cons n r =>
      have hkey : place ++ q ∈ Keyed.keys t.entries := by
        rw [hcons] at hq ⊢
        exact Keyed.mem_keys_iff_isSome.mpr (Option.isSome_of_eq_some hq)
      calc q.length ≤ (place ++ q).length := by simp
        _ ≤ (Keyed.keys t.entries).flatten.length := (List.sublist_flatten_of_mem hkey).length_le
  exact Walks.exists_cons (exists_isListing t place links sorted) hdepth .done

theorem IsWalk.pairwise (h : t.IsWalk root place links sorted visited) :
    visited.Pairwise (Place.Ahead (nameOrder sorted)) :=
  Walks.pairwise (fun _ _ hnames => hnames.order) h (List.pairwise_singleton _ _)

theorem IsWalk.nodup (h : t.IsWalk root place links sorted visited) : visited.Nodup :=
  h.pairwise.imp (Place.Ahead.ne (Place.nameOrder_irrefl sorted))

section Rooted
variable (ht : t.IsTree) (hroot : t.directory? root = some place)
include ht hroot

/-- What lies on the way to a place is entered if the last directory on it can be listed. -/
theorem isEntered_of_append {r : Place} (hr : r ≠ []) (hget : (t.get? (place ++ (p ++ r))).isSome)
    (h : t.isListed root (p ++ r).dropLast = true) : t.IsEntered root place p := by
  obtain ⟨e, he⟩ := Option.isSome_iff_exists.mp hget
  have hdirectory : t.get? (place ++ p) = some .directory := by
    rw [← List.append_assoc] at he
    exact ht.get?_of_append he hr
  have hnames := fun n hn => ht.names_of_get? hdirectory n (List.mem_append_right _ hn)
  refine ⟨hdirectory, (isListed_iff ht hroot hnames).mpr ⟨?_, hdirectory⟩⟩
  have hopens := (isListed_dropLast_iff ht hroot (by simp [hr]) he).mp h
  rw [List.dropLast_append_of_ne_nil hr] at hopens
  refine hopens.of_append (directory?_eq_some_iff.mp hroot).1.nonempty fun n hn => ?_
  rw [← List.dropLast_append_of_ne_nil hr] at hn
  exact ht.names_of_get? he n (List.mem_append_right _ (List.dropLast_subset _ hn))

/-- A walk visits whatever lies in a directory that can be listed, and nothing else but links. -/
theorem IsWalk.mem_iff (h : t.IsWalk root place links sorted visited) (hne : p ≠ [])
    (hget : (t.get? (place ++ p)).isSome) : p ∈ visited ↔ t.isListed root p.dropLast = true := by
  constructor
  · intro hp
    exact ((Walks.mem_or_entered h hp).resolve_left (by simpa using hne)).2
  · intro hlisted
    refine Walks.mem_of_above h (List.mem_singleton_self []) List.nil_prefix fun q n _ hbelow => ?_
    obtain ⟨r, rfl⟩ := hbelow
    rw [List.append_assoc] at hget hlisted
    refine ⟨isEntered_of_append ht hroot (by simp) hget hlisted, fun names hnames => (hnames.mem_iff n).mpr (Or.inl ?_)⟩
    cases r with
    | nil => exact hget
    | cons m r =>
      have hsplit : q ++ ([n] ++ m :: r) = q ++ [n] ++ m :: r := by simp
      rw [hsplit] at hget hlisted
      exact Option.isSome_of_eq_some (isEntered_of_append ht hroot (List.cons_ne_nil m r) hget hlisted).1

end Rooted

end FileTree

/-! ### The files that are met -/

namespace SourceTree
open FileTree

variable {t : FileTree} {root : Bytes} {place p : Place} {links visited : List Place} {extension : Text} {sorted : Bool}

/-- The files with an extension among the places that are visited. -/
def filesAmong (t : FileTree) (place : Place) (extension : Text) (visited : List Place) : List Place :=
  visited.filter fun p => (t.file? (place ++ p)).isSome ∧ p.HasExtension extension

/-- The directories that cannot be listed among the places that are visited. -/
def unlistedAmong (t : FileTree) (root : Bytes) (place : Place) (visited : List Place) : List Place :=
  visited.filter fun p => t.get? (place ++ p) = some .directory ∧ t.isListed root p = false

theorem candidates_perm_sorted (t : FileTree) (root : Bytes) (place : Place) (extension : Text) (sorted : Bool) :
    (candidates t root place extension sorted).Perm (candidates t root place extension true) :=
  (candidates_perm t root place extension sorted).trans (candidates_perm t root place extension true).symm

/-- The source files of a sorted tree come in the order of their names. -/
theorem candidates_pairwise_lt (ht : t.IsTree) (root : Bytes) (place : Place) (extension : Text) :
    (candidates t root place extension true).Pairwise fun p q => p < q :=
  ((candidates_pairwise t root place extension).and (nodup_candidates ht root place extension true)).imp
    fun h => List.not_le.mp fun hle => h.2 (List.le_antisymm h.1 hle)

section Walk
variable (ht : t.IsTree) (hroot : t.directory? root = some place) (h : t.IsWalk root place links sorted visited)
include ht hroot h

/-- Every walk meets the source files once. -/
theorem filesAmong_perm (extension : Text) :
    (filesAmong t place extension visited).Perm (candidates t root place extension sorted) := by
  refine (List.perm_ext_iff_of_nodup (h.nodup.filter _) (nodup_candidates ht root place extension sorted)).mpr fun p => ?_
  simp only [List.mem_filter, decide_eq_true_eq, mem_candidates ht]
  constructor
  · rintro ⟨hp, hfile, hext⟩
    obtain ⟨e, he⟩ := Option.isSome_iff_exists.mp hfile
    obtain ⟨hget, hne⟩ := file?_eq_some_iff.mp he
    have hbelow : p ≠ [] := by
      rintro rfl
      rw [List.append_nil, ht.get?_of_directory? hroot] at hget
      exact hne (Option.some.inj hget).symm
    exact ⟨⟨hbelow, hfile⟩, (h.mem_iff ht hroot hbelow (Option.isSome_of_eq_some hget)).mp hp, hext⟩
  · rintro ⟨⟨hbelow, hfile⟩, hlisted, hext⟩
    obtain ⟨e, he⟩ := Option.isSome_iff_exists.mp hfile
    have hget := Option.isSome_of_eq_some (file?_eq_some_iff.mp he).1
    exact ⟨(h.mem_iff ht hroot hbelow hget).mpr hlisted, hfile, hext⟩

/-- Every walk meets the directories that cannot be listed once. -/
theorem unlistedAmong_perm : (unlistedAmong t root place visited).Perm (unlisted t root place) := by
  refine (List.perm_ext_iff_of_nodup (h.nodup.filter _) (nodup_unlisted ht root place)).mpr fun p => ?_
  simp only [List.mem_filter, decide_eq_true_eq, mem_unlisted ht]
  constructor
  · rintro ⟨hp, hget, hlisted⟩
    have hbelow : p ≠ [] := by
      rintro rfl
      rw [isListed, show Place.path root [] = root from rfl, hroot] at hlisted
      cases hlisted
    exact ⟨⟨hbelow, hget⟩, (h.mem_iff ht hroot hbelow (Option.isSome_of_eq_some hget)).mp hp, hlisted⟩
  · rintro ⟨⟨hbelow, hget⟩, habove, hlisted⟩
    exact ⟨(h.mem_iff ht hroot hbelow (Option.isSome_of_eq_some hget)).mpr habove, hget, hlisted⟩

end Walk

/-- A sorted walk meets the source files in the order in which they are read. -/
theorem filesAmong_eq (ht : t.IsTree) (hroot : t.directory? root = some place)
    (h : t.IsWalk root place links true visited) :
    filesAmong t place extension visited = candidates t root place extension true := by
  have hmet : (filesAmong t place extension visited).Pairwise fun p q => p < q :=
    (h.pairwise.imp Place.Ahead.lt).filter _
  exact List.Perm.eq_of_pairwise (fun _ _ _ _ hlt hgt => absurd hgt (List.lt_asymm hlt)) hmet
    (candidates_pairwise_lt ht root place extension) (filesAmong_perm ht hroot h extension)

end SourceTree

end EndpointAtlas
