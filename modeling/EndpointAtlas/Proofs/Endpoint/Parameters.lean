import EndpointAtlas.Endpoint.FromSource
import EndpointAtlas.Proofs.Keyword.Closing
import EndpointAtlas.Proofs.Text.Find

/-! Where the parameters of a block stand. They begin behind the first `params do` of the block and end before the
    `end` that closes it, counted along the keywords of the block. Both places lie between characters, the first
    one not behind the second, and the keywords between them open and close whole bodies. -/

namespace EndpointAtlas.Endpoint
open Text

variable {before : Option Char} {s t u v rest block body : Text}

/-! ### Lengths in bytes -/

theorem byteLength_eq_zero_iff : byteLength t = 0 ↔ t = [] := by
  cases t with
  | nil => exact iff_of_true rfl rfl
  | cons c t =>
    have hsize : 0 < c.utf8Size := Char.utf8Size_pos c
    refine iff_of_false ?_ (List.cons_ne_nil c t)
    rw [byteLength]
    omega

/-- Of two cuts of a text, the one that lies fewer bytes from the front lies before the other one. -/
theorem exists_append_of_byteLength_le (h : s ++ t = u ++ v) (hle : byteLength s ≤ byteLength u) :
    ∃ w, u = s ++ w ∧ t = w ++ v := by
  rcases List.append_eq_append_iff.mp h with ⟨w, hu, ht⟩ | ⟨w, hs, hv⟩
  · exact ⟨w, hu, ht⟩
  · have hw : w = [] := by
      rw [hs, byteLength_append] at hle
      exact byteLength_eq_zero_iff.mp (by omega)
    rw [hw, List.append_nil] at hs
    rw [hw, List.nil_append] at hv
    exact ⟨[], by rw [hs, List.append_nil], by rw [hv, List.nil_append]⟩

theorem takeBytes_append (s t : Text) : takeBytes (byteLength s) (s ++ t) = s := by
  induction s with
  | nil =>
    cases t with
    | nil => rfl
    | cons c t =>
      have hsize : ¬ c.utf8Size ≤ 0 := Nat.not_le.mpr (Char.utf8Size_pos c)
      rw [List.nil_append, byteLength, takeBytes, if_neg hsize]
  | cons c s ih =>
    rw [List.cons_append, byteLength, takeBytes, if_pos (Nat.le_add_right _ _), Nat.add_sub_cancel_left, ih]

/-! ### The opening -/

/-- At the front of `t` stand the words `params` and `do` with blanks between them, and `rest` behind them. No word
    goes on at either end. -/
def OpensParams (before : Option Char) (t rest : Text) : Prop :=
  startsWord before = true ∧ endsWord rest = true ∧ ∃ blanks, t = "params" ++ (blanks ++ ("do" ++ rest)) ∧
    blanks ≠ [] ∧ ∀ c ∈ blanks, isBlank c = true

theorem readParamsOpening?_eq_some_iff : readParamsOpening? before t = some ((), rest) ↔ OpensParams before t rest := by
  constructor
  · intro h
    unfold readParamsOpening? at h
    cases hstart : startsWord before with
    | false =>
      rw [hstart] at h
      cases h
    | true =>
      rw [hstart] at h
      obtain ⟨u, hread, hend⟩ := Option.bind_eq_some_iff.mp h
      split at hend
      · next hword =>
        cases hend
        obtain ⟨x, hx, hdo⟩ := Option.bind_eq_some_iff.mp hread
        obtain ⟨y, hlead, hblanks⟩ := Option.bind_eq_some_iff.mp hx
        obtain ⟨blanks, rfl, hne, hblank⟩ := eq_of_blanks? hblanks
        refine ⟨hstart, hword, blanks, ?_, hne, hblank⟩
        rw [dropLead?_eq_some_iff.mp hlead, dropLead?_eq_some_iff.mp hdo]
      · cases hend
  · rintro ⟨hstart, hend, blanks, rfl, hne, hblank⟩
    have hlead : dropLead? "params" ("params" ++ (blanks ++ ("do" ++ rest))) = some (blanks ++ ("do" ++ rest)) :=
      dropLead?_eq_some_iff.mpr rfl
    have hblanks : blanks? (blanks ++ ("do" ++ rest)) = some ("do" ++ rest) :=
      blanks?_append hne hblank fun c hc => by
        cases hc
        rfl
    have hdo : dropLead? "do" ("do" ++ rest) = some rest := dropLead?_eq_some_iff.mpr rfl
    unfold readParamsOpening?
    simp only [hstart, hlead, hblanks, hdo, hend, Option.bind_eq_bind, Option.bind_some, Bool.not_true,
      Bool.false_eq_true, if_false, if_true]

/-! ### The place of the parameters -/

/-- The parameters of a block are `inside`: they begin behind the first opening, and their `end` follows them. -/
structure ParamsAt (block before inside behind : Text) : Prop where
  block_eq : block = before ++ (inside ++ behind)
  opening : find? readParamsOpening? none block = some ((), inside ++ behind)
  closing : Keyword.matchingClose? block (byteLength before) = some (byteLength (before ++ inside))

theorem exists_append_of_find?_opening (h : find? readParamsOpening? none block = some ((), rest)) :
    ∃ before, block = before ++ rest := by
  obtain ⟨s, u, rfl, -, hread⟩ := find?_eq_some_iff.mp h
  obtain ⟨-, -, blanks, rfl, -⟩ := readParamsOpening?_eq_some_iff.mp hread
  exact ⟨s ++ ("params" ++ (blanks ++ "do")), by simp only [List.append_assoc]⟩

/-- The place of an `end` that closes a body lies between characters and not before the body. -/
theorem exists_append_of_matchingClose? {before rest : Text} {stop : Nat}
    (h : Keyword.matchingClose? (before ++ rest) (byteLength before) = some stop) :
    ∃ inside behind, rest = inside ++ behind ∧ stop = byteLength (before ++ inside) := by
  obtain ⟨hscan, hle, -⟩ := Keyword.matchingClose?_eq_some_iff.mp h
  obtain ⟨s, u, hsplit, hstop⟩ := Keyword.exists_end_of_mem_scanFrom hscan
  rw [Nat.zero_add] at hstop
  rw [hstop] at hle
  obtain ⟨inside, rfl, hrest⟩ := exists_append_of_byteLength_le hsplit hle
  exact ⟨inside, "end" ++ u, hrest, hstop⟩

/-- Where both the opening and the `end` are found, the text between them can be cut out. -/
theorem exists_paramsAt {stop : Nat} (hopen : find? readParamsOpening? none block = some ((), rest))
    (hclose : Keyword.matchingClose? block (byteLength block - byteLength rest) = some stop) :
    ∃ before inside behind, ParamsAt block before inside behind ∧
      byteLength block - byteLength rest = byteLength before ∧ stop = byteLength (before ++ inside) := by
  obtain ⟨before, rfl⟩ := exists_append_of_find?_opening hopen
  have hstart : byteLength (before ++ rest) - byteLength rest = byteLength before := by
    rw [byteLength_append, Nat.add_sub_cancel]
  rw [hstart] at hclose
  obtain ⟨inside, behind, rfl, rfl⟩ := exists_append_of_matchingClose? hclose
  exact ⟨before, inside, behind, ⟨rfl, hopen, hclose⟩, hstart, rfl⟩

theorem ParamsAt.paramsBody?_eq {before inside behind : Text} (h : ParamsAt block before inside behind) :
    paramsBody? block = some (trim inside) := by
  have hstart : byteLength block - byteLength (inside ++ behind) = byteLength before := by
    rw [h.block_eq, byteLength_append, Nat.add_sub_cancel]
  have hsize : byteLength (before ++ inside) - byteLength before = byteLength inside := by
    rw [byteLength_append, Nat.add_sub_cancel_left]
  unfold paramsBody?
  rw [h.opening]
  simp only [Option.bind_eq_bind, Option.bind_some, hstart, h.closing, hsize, takeBytes_append]
  rfl

theorem paramsBody?_eq_some_iff : paramsBody? block = some body ↔
    ∃ before inside behind, ParamsAt block before inside behind ∧ body = trim inside := by
  constructor
  · intro h
    obtain ⟨⟨⟨⟩, rest⟩, hopen, h'⟩ := Option.bind_eq_some_iff.mp h
    obtain ⟨stop, hclose, -⟩ := Option.bind_eq_some_iff.mp h'
    obtain ⟨before, inside, behind, hat, -⟩ := exists_paramsAt hopen hclose
    rw [hat.paramsBody?_eq] at h
    exact ⟨before, inside, behind, hat, (Option.some.inj h).symm⟩
  · rintro ⟨before, inside, behind, hat, rfl⟩
    exact hat.paramsBody?_eq

theorem ParamsAt.isMatched {before inside behind : Text} (h : ParamsAt block before inside behind) :
    Keyword.IsMatched (Keyword.hitsWithin block (byteLength before) (byteLength (before ++ inside))) :=
  (Keyword.matchingClose?_eq_some_iff.mp h.closing).2.2

/-- The `end` that closes a body is the first one before which as many bodies are opened as closed; there is none
    exactly if nowhere behind the place more bodies are closed than opened. The parameters of a block are cut out
    at such an `end`: both ends of the cut lie between characters, in this order, and what is cut out holds whole
    bodies. -/
theorem matchingClose?_is_balancing_end (t : Text) :
    (∀ start stop, Keyword.matchingClose? t start = some stop ↔
      let inside := Keyword.hitsWithin t start stop
      ⟨stop, .closer⟩ ∈ Keyword.scan t ∧ start ≤ stop ∧
        Keyword.count .opener inside = Keyword.count .closer inside ∧
        ∀ p, p <+: inside → Keyword.count .closer p ≤ Keyword.count .opener p) ∧
    (∀ start, Keyword.matchingClose? t start = none ↔
      ∀ p, p <+: Keyword.hitsFrom t start → Keyword.count .closer p ≤ Keyword.count .opener p) ∧
    (∀ rest stop, find? readParamsOpening? none t = some ((), rest) →
      Keyword.matchingClose? t (byteLength t - byteLength rest) = some stop →
      ∃ before inside behind, t = before ++ (inside ++ behind) ∧
        byteLength t - byteLength rest = byteLength before ∧ stop = byteLength (before ++ inside) ∧
        paramsBody? t = some (trim inside)) ∧
    (∀ body, paramsBody? t = some body → ∃ before inside behind, ParamsAt t before inside behind ∧
      body = trim inside ∧
      Keyword.IsMatched (Keyword.hitsWithin t (byteLength before) (byteLength (before ++ inside)))) := by
  refine ⟨fun start stop => ?_, fun start => Keyword.matchingClose?_eq_none_iff, fun rest stop hopen hclose => ?_,
    fun body hbody => ?_⟩
  · rw [Keyword.matchingClose?_eq_some_iff]
    exact and_congr_right fun _ => and_congr_right fun _ => ⟨fun h => ⟨h.closed, h.opened⟩, fun h => ⟨h.2, h.1⟩⟩
  · obtain ⟨before, inside, behind, hat, hstart, hstop⟩ := exists_paramsAt hopen hclose
    exact ⟨before, inside, behind, hat.block_eq, hstart, hstop, hat.paramsBody?_eq⟩
  · obtain ⟨before, inside, behind, hat, hbody⟩ := paramsBody?_eq_some_iff.mp hbody
    exact ⟨before, inside, behind, hat, hbody, hat.isMatched⟩

example : Keyword.matchingClose? "é params do\n a do\n end\nend" 12 = some 24 := by decide

end EndpointAtlas.Endpoint
