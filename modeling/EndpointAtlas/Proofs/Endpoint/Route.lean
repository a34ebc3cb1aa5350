import EndpointAtlas.Proofs.Block.Nesting
import EndpointAtlas.Proofs.Endpoint.Parameters

/-! The route of a block. The handler of a block is known by its verb alone, but the method of the endpoint is read
    from the first line of the block on which a verb stands with a name behind it. The two agree where the handler
    has a name, or what can be read as one, and no line before it looks like a route. -/

namespace EndpointAtlas.Endpoint
open Text Description

variable {before : Option Char} {m m' : HttpMethod} {s t u v w block indent : Text}

/-! ### Routes -/

/-- At the front of the text stands a routing verb, and behind blanks a word, before which a colon or a quote may
    stand. -/
def IsRoute (m : HttpMethod) (t : Text) : Prop := ∃ gap sign name rest, t = m.verb ++ (gap ++ (sign ++ (name ++ rest))) ∧
  gap ≠ [] ∧ (∀ c ∈ gap, isBlank c = true) ∧ (sign = [] ∨ sign = ":" ∨ sign = "'" ∨ sign = "\"") ∧ IsWord name

/-- A route begins on the first line of the text. -/
def BeginsRoute (m : HttpMethod) (t : Text) : Prop := ∃ indent u, t = indent ++ u ∧
  (∀ c ∈ indent, isBlank c = true ∧ c ≠ '\n') ∧ IsRoute m u

/-- A route of the method `m` begins on the line of a block that follows `s`. -/
structure RouteAt (block : Text) (m : HttpMethod) (s u : Text) : Prop where
  split : block = s ++ u
  line : EndsLine s
  route : BeginsRoute m u

/-- `m` is the method of the first line of a block on which a route begins. -/
def IsFirstMethod (m : HttpMethod) (block : Text) : Prop := ∃ s u, RouteAt block m s u ∧
  ∀ m' s' u', RouteAt block m' s' u' → s.length ≤ s'.length

/-! ### Reading a route -/

theorem trimStart_verb_append (m : HttpMethod) (t : Text) : trimStart (m.verb ++ t) = m.verb ++ t := by
  cases m <;> rfl

/-- The text behind the colon or quote that it may begin with. -/
def passSign (t : Text) : Text :=
  match t with
  | c :: rest => if c = ':' || c = '\'' || c = '"' then rest else t
  | [] => []

theorem exists_sign (t : Text) :
    ∃ sign, (sign = [] ∨ sign = ":" ∨ sign = "'" ∨ sign = "\"") ∧ t = sign ++ passSign t := by
  cases t with
  | nil => exact ⟨[], Or.inl rfl, rfl⟩
  | cons c t =>
    rw [passSign]
    by_cases hc : (c = ':' || c = '\'' || c = '"') = true
    · rw [if_pos hc]
      refine ⟨[c], ?_, rfl⟩
      simp only [Bool.or_eq_true, decide_eq_true_eq] at hc
      rcases hc with (rfl | rfl) | rfl <;> simp
    · rw [if_neg hc]
      exact ⟨[], Or.inl rfl, rfl⟩

theorem passSign_append {sign name : Text} (hsign : sign = [] ∨ sign = ":" ∨ sign = "'" ∨ sign = "\"")
    (hname : IsWord name) (rest : Text) : passSign (sign ++ (name ++ rest)) = name ++ rest := by
  rcases hsign with rfl | rfl | rfl | rfl
  · obtain ⟨c, name, rfl⟩ := List.exists_cons_of_ne_nil hname.1
    have hc : isWordChar c = true := hname.2 c List.mem_cons_self
    rw [List.nil_append, List.cons_append, passSign, if_neg]
    simp only [Bool.or_eq_true, decide_eq_true_eq]
    rintro ((rfl | rfl) | rfl) <;> cases hc
  · rfl
  · rfl
  · rfl

theorem readRoute?_eq_some_iff : (∃ name rest, readRoute? before t = some ((m, name), rest)) ↔
    before.all (· == '\n') = true ∧ IsRoute m (trimStart t) := by
  unfold readRoute?
  cases hbefore : before.all (· == '\n') with
  | false => exact iff_of_false (by rintro ⟨name, rest, h⟩; cases h) (fun h => by cases h.1)
  | true =>
    constructor
    · rintro ⟨name, rest, h⟩
      obtain ⟨⟨method, t₁⟩, hverb, h⟩ := Option.bind_eq_some_iff.mp h
      obtain ⟨t₂, hgap, h⟩ := Option.bind_eq_some_iff.mp h
      obtain ⟨⟨w, t₃⟩, hword, h⟩ := Option.bind_eq_some_iff.mp h
      cases h
      obtain ⟨gap, hgap, hne, hblank⟩ := eq_of_blanks? hgap
      obtain ⟨sign, hsign, ht₂⟩ := exists_sign t₂
      obtain ⟨hname, hrest⟩ := eq_of_word? hword
      refine ⟨rfl, gap, sign, name, rest, ?_, hne, hblank, hsign, hname⟩
      rw [Line.eq_verb_append_of_read? hverb, hgap, ← hrest]
      exact congrArg _ (congrArg _ ht₂)
    · rintro ⟨-, gap, sign, name, rest, ht, hne, hblank, hsign, hname⟩
      have hverb : HttpMethod.read? (trimStart t) = some (m, gap ++ (sign ++ (name ++ rest))) := by
        rw [ht]
        cases m <;> rfl
      have hhead : ∀ c ∈ (sign ++ (name ++ rest)).head?, isBlank c = false := by
        rcases hsign with rfl | rfl | rfl | rfl
        · exact hname.isBlank_head rest
        all_goals
          rintro _ ⟨⟩
          rfl
      obtain ⟨w, r, hword⟩ := hname.exists_word? rest
      refine ⟨w, r, ?_⟩
      simp only [hverb, blanks?_append hne hblank hhead, Option.bind_eq_bind, Option.bind_some]
      show ((word? (passSign (sign ++ (name ++ rest)))).bind fun x => some ((m, x.1), x.2)) = _
      rw [passSign_append hsign hname, hword]
      rfl

/-! ### The first route -/

theorem IsRoute.trimStart_eq (h : IsRoute m t) : trimStart t = t := by
  obtain ⟨gap, sign, name, rest, rfl, -⟩ := h
  exact trimStart_verb_append m _

theorem IsRoute.method_eq (h : IsRoute m t) (h' : IsRoute m' t) : m = m' := by
  rw [← h.trimStart_eq] at h
  rw [← h'.trimStart_eq] at h'
  obtain ⟨name, rest, hread⟩ := (@readRoute?_eq_some_iff none m t).mpr ⟨rfl, h⟩
  obtain ⟨name', rest', hread'⟩ := (@readRoute?_eq_some_iff none m' t).mpr ⟨rfl, h'⟩
  cases hread.symm.trans hread'
  rfl

theorem BeginsRoute.isRoute_trimStart (h : BeginsRoute m t) : IsRoute m (trimStart t) := by
  obtain ⟨indent, u, rfl, hindent, hroute⟩ := h
  rwa [trimStart, List.dropWhile_append_of_pos fun c hc => (hindent c hc).1, ← trimStart, hroute.trimStart_eq]

/-- A text that begins with a route has no line that ends before the route. -/
theorem BeginsRoute.not_mem_of_isBlank (h : BeginsRoute m (w ++ t)) (hw : ∀ c ∈ w, isBlank c = true) : '\n' ∉ w := by
  obtain ⟨indent, u, hsplit, hindent, hroute⟩ := h
  have hbreak : '\n' ∉ indent := fun hmem => (hindent _ hmem).2 rfl
  rcases List.append_eq_append_iff.mp hsplit with ⟨x, rfl, -⟩ | ⟨x, rfl, hu⟩
  · exact fun hmem => hbreak (List.mem_append_left x hmem)
  · -- What goes on behind the indentation is the verb, which is no blank.
    cases x with
    | nil => rwa [List.append_nil]
    | cons c x =>
      have hc : isBlank c = true := hw c (List.mem_append_right indent List.mem_cons_self)
      have hstart := hroute.trimStart_eq
      rw [hu, List.cons_append, trimStart_cons_of_isBlank hc] at hstart
      have hlength := congrArg List.length hstart
      have hle := List.length_dropWhile_le isBlank (x ++ t)
      rw [List.length_cons] at hlength
      exact absurd hlength (Nat.ne_of_lt (Nat.lt_succ_of_le hle))

theorem RouteAt.exists_read (h : RouteAt block m s u) :
    ∃ name rest, readRoute? (s.getLast?.or none) u = some ((m, name), rest) :=
  readRoute?_eq_some_iff.mpr ⟨endsLine_iff.mp h.line, h.route.isRoute_trimStart⟩

/-- A route that stands behind blanks begins on the last line of the blanks, and no other one before it. -/
theorem exists_routeAt_of_isRoute (hs : EndsLine s) (h : IsRoute m (trimStart u)) : ∃ s' u', RouteAt (s ++ u) m s' u' ∧
    ∀ m'' s'' u'', RouteAt (s ++ u) m'' s'' u'' → s.length ≤ s''.length → s'.length ≤ s''.length := by
  obtain ⟨lead, indent, hblanks, hlead, hindent⟩ := exists_last_line (u.takeWhile isBlank)
  have hblank : ∀ c ∈ lead ++ indent, isBlank c = true := fun c hc => List.mem_takeWhile_imp (hblanks ▸ hc)
  have hu : s ++ u = s ++ lead ++ (indent ++ trimStart u) := by
    rw [List.append_assoc, ← List.append_assoc lead, ← hblanks, trimStart, List.takeWhile_append_dropWhile]
  have hat : RouteAt (s ++ u) m (s ++ lead) (indent ++ trimStart u) := by
    refine ⟨hu, hs.append hlead, indent, trimStart u, rfl, fun c hc => ?_, h⟩
    refine ⟨hblank c (List.mem_append_right lead hc), ?_⟩
    rintro rfl
    exact hindent hc
  refine ⟨_, _, hat, fun m'' s'' u'' hat'' hle => ?_⟩
  by_contra hlt
  rcases List.append_eq_append_iff.mp (hat''.split.symm.trans hu) with ⟨w, hw, hu''⟩ | ⟨w, hw, -⟩
  · -- The blanks from `s''` to the last of their lines hold a line feed, and so the route at `s''` cannot stand there.
    have hne : w ≠ [] := by
      rintro rfl
      rw [List.append_nil] at hw
      exact hlt (Nat.le_of_eq (congrArg List.length hw))
    have hline : EndsLine (s'' ++ w) := hw ▸ hs.append hlead
    have hbreak : '\n' ∈ w := hline.mem_of_append hne
    have hw' : ∀ c ∈ w, c ∈ lead := by
      rcases List.append_eq_append_iff.mp hw with ⟨x, -, rfl⟩ | ⟨x, rfl, rfl⟩
      · exact fun c hc => List.mem_append_right x hc
      · obtain rfl : x = [] := List.eq_nil_of_length_eq_zero (by rw [List.length_append] at hle; omega)
        exact fun c hc => hc
    rw [hu''] at hat''
    exact hat''.route.not_mem_of_isBlank (fun c hc => hblank c (List.mem_append_left indent (hw' c hc))) hbreak
  · exact hlt (hw ▸ (List.prefix_append (s ++ lead) w).length_le)

theorem isFirstMethod_of_find? {name rest : Text} (h : find? readRoute? none block = some ((m, name), rest)) :
    IsFirstMethod m block := by
  obtain ⟨s, u, rfl, hmisses, hread⟩ := find?_eq_some_iff.mp h
  obtain ⟨hline, hroute⟩ := readRoute?_eq_some_iff.mp ⟨name, rest, hread⟩
  obtain ⟨s', u', hat, hfirst⟩ := exists_routeAt_of_isRoute (endsLine_iff.mpr hline) hroute
  refine ⟨s', u', hat, fun m'' s'' u'' hat'' => hfirst m'' s'' u'' hat'' ?_⟩
  by_contra hlt
  obtain ⟨name', rest', hread'⟩ := hat''.exists_read
  rcases List.append_eq_append_iff.mp hat''.split with ⟨x, rfl, -⟩ | ⟨x, rfl, rfl⟩
  · exact hlt (List.prefix_append s x).length_le
  · cases x with
    | nil => exact hlt (by rw [List.append_nil])
    | cons c x =>
      rw [List.cons_append, hmisses.eq_none] at hread'
      cases hread'

theorem IsFirstMethod.method_eq (h : IsFirstMethod m block) (h' : IsFirstMethod m' block) : m = m' := by
  obtain ⟨s, u, hat, hfirst⟩ := h
  obtain ⟨s', u', hat', hfirst'⟩ := h'
  have hlength : s.length = s'.length := Nat.le_antisymm (hfirst _ _ _ hat') (hfirst' _ _ _ hat)
  obtain ⟨rfl, rfl⟩ := List.append_inj (hat.split.symm.trans hat'.split) hlength
  exact hat.route.isRoute_trimStart.method_eq hat'.route.isRoute_trimStart

theorem find?_readRoute?_eq_none_iff : find? readRoute? none block = none ↔ ∀ m s u, ¬ RouteAt block m s u := by
  refine ⟨fun h m s u hat => ?_, fun h => ?_⟩
  · obtain ⟨name, rest, hread⟩ := hat.exists_read
    rw [find?_eq_none_iff.mp h s u hat.split] at hread
    cases hread
  · rw [Option.eq_none_iff_forall_ne_some]
    rintro ⟨⟨m, name⟩, rest⟩ hread
    obtain ⟨s, u, hat, -⟩ := isFirstMethod_of_find? hread
    exact h m s u hat

/-! ### The method of a block -/

theorem httpMethod_ofBlock (file : RoutingFile) (context : Option Text) (block : Text) :
    (ofBlock file context block).httpMethod = (find? readRoute? none block).map (·.1.1) := by
  show ((find? readRoute? none block).map (·.1)).map (·.1) = _
  rw [Option.map_map]
  rfl

theorem httpMethod_eq_some_iff (file : RoutingFile) (context : Option Text) :
    (ofBlock file context block).httpMethod = some m ↔ IsFirstMethod m block := by
  rw [httpMethod_ofBlock]
  constructor
  · intro h
    obtain ⟨⟨⟨m, name⟩, rest⟩, hread, rfl⟩ := Option.map_eq_some_iff.mp h
    exact isFirstMethod_of_find? hread
  · intro h
    cases hread : find? readRoute? none block with
    | none =>
      obtain ⟨s, u, hat, -⟩ := h
      exact absurd hat (find?_readRoute?_eq_none_iff.mp hread m s u)
    | some x =>
      obtain ⟨⟨m', name⟩, rest⟩ := x
      rw [Option.map_some, (isFirstMethod_of_find? hread).method_eq h]

theorem httpMethod_eq_none_iff (file : RoutingFile) (context : Option Text) :
    (ofBlock file context block).httpMethod = none ↔ ∀ m s u, ¬ RouteAt block m s u := by
  rw [httpMethod_ofBlock, Option.map_eq_none_iff, find?_readRoute?_eq_none_iff]

/-- The line of a handler goes into the block that is open before it, and so do lines behind it. -/
theorem exists_taken_of_isVerb (limit : Nat) (scopes around ls : List Text) {first : Text} (h : Line.IsVerb first)
    (behind : List Text) : ∃ back more, back <+: behind ∧
      Reading.blocksFrom limit ⟨scopes, some ⟨around, ls, .between⟩⟩ (first :: behind) =
        ⟨.description, around, trim (joinWith "\n" (ls ++ first :: back))⟩ :: more := by
  have hstep := @Reading.step_isVerb limit scopes around ls first h
  by_cases hopen : 0 < Keyword.depthChange first
  · rw [if_pos hopen] at hstep
    obtain ⟨back, more, hback, -, htaken⟩ :=
      Reading.exists_taken limit scopes (.handler (Keyword.depthChange first)) behind
    refine ⟨back, more, hback, ?_⟩
    rw [Reading.blocksFrom_cons_of_eq hstep, htaken, List.append_assoc, List.singleton_append]
  · rw [if_neg hopen] at hstep
    refine ⟨[], Reading.blocksFrom limit ⟨scopes, none⟩ behind, List.nil_prefix, ?_⟩
    rw [Reading.blocksFrom_cons, hstep]
    rfl

theorem trim_joinWith_handler {ls : List Text} (hls : HasHeader ls) {first : Text} (hfirst : trim first ≠ [])
    (back : List Text) : trim (joinWith "\n" (ls ++ first :: back)) =
      trimStart (joinWith "\n" ls) ++ ['\n'] ++ trimEnd (joinWith "\n" (first :: back)) := by
  have hne : trimEnd (joinWith "\n" (first :: back)) ≠ [] := by
    intro hnil
    obtain ⟨blanks, hblanks, hblank⟩ := exists_append_trimEnd (joinWith "\n" (first :: back))
    rw [hnil, joinWith_cons_eq, List.nil_append] at hblanks
    have hmem : ∀ c ∈ first, c ∈ blanks := fun c hc => hblanks ▸ List.mem_append_left _ hc
    have htrim := trim_append_of_isBlank (fun c hc => hblank c (hmem c hc)) []
    rw [List.append_nil] at htrim
    exact hfirst htrim
  have hjoin : joinWith "\n" (ls ++ first :: back) = joinWith "\n" ls ++ (['\n'] ++ joinWith "\n" (first :: back)) := by
    rw [joinWith_append hls.ne_nil, onNewLines_cons, joinWith_cons_eq]
    rfl
  rw [hjoin, trim, trimStart_append hls.trimStart_joinWith_ne_nil, ← List.append_assoc, trimEnd_append hne]

/-- In a block that goes on with a handler, the method of the endpoint is the one of the first line on which a route
    begins, and there is none if a route begins on no line. So it is the one of the handler where a route begins on
    the line of the handler and on no line before it. -/
theorem httpMethod_of_handler (limit : Nat) {front behind ls scopes around : List Text} {first text rest : Text}
    (hread : (Reading.run limit (.start []) front).2 = ⟨scopes, some ⟨around, ls, .between⟩⟩)
    (hverb : trim first = m.verb ++ rest) (hword : endsWord rest = true) (htext : lines text = front ++ first :: behind) :
    ∃ back more, back <+: behind ∧
      let lead := trimStart (joinWith "\n" ls) ++ ['\n']
      let handler := trimEnd (joinWith "\n" (first :: back))
      blocks limit text = (Reading.run limit (.start []) front).1 ++ ⟨.description, around, lead ++ handler⟩ :: more ∧
      lead ++ handler = trim (joinWith "\n" (ls ++ first :: back)) ∧ EndsLine lead ∧
      ∀ file context,
        let method := (ofBlock file context (lead ++ handler)).httpMethod
        (∀ m', method = some m' ↔ IsFirstMethod m' (lead ++ handler)) ∧
        (method = none ↔ ∀ m' s u, ¬ RouteAt (lead ++ handler) m' s u) ∧
        (BeginsRoute m handler → (∀ m' s u, RouteAt (lead ++ handler) m' s u → lead.length ≤ s.length) →
          method = some m) := by
  obtain ⟨back, more, hback, htaken⟩ := exists_taken_of_isVerb limit scopes around ls ⟨m, rest, hverb, hword⟩ behind
  have hfirst : trim first ≠ [] := by
    rw [hverb]
    cases m <;> exact List.cons_ne_nil _ _
  have htrim := trim_joinWith_handler (Reading.stands_of_run hread).hasHeader hfirst back
  have hline : EndsLine (trimStart (joinWith "\n" ls) ++ ['\n']) := by
    refine Or.inr ?_
    rw [endsIn, List.getLast?_concat]
    rfl
  refine ⟨back, more, hback, ?_, htrim.symm, hline, fun file context => ?_⟩
  · show Reading.blocksFrom limit (.start []) (lines text) = _
    have hfront : Reading.run limit (.start []) front =
        ((Reading.run limit (.start []) front).1, ⟨scopes, some ⟨around, ls, .between⟩⟩) := Prod.ext rfl hread
    rw [htext, Reading.blocksFrom_append_of_eq hfront, htaken, htrim]
  · refine ⟨fun m' => httpMethod_eq_some_iff file context, httpMethod_eq_none_iff file context, fun hroute hfree => ?_⟩
    exact (httpMethod_eq_some_iff file context).mpr ⟨_, _, ⟨rfl, hline, hroute⟩, hfree⟩

/-- A handler with a name. -/
theorem httpMethod_of_named_handler :
    let front : List Text := ["desc 'A'"]
    let handler : Text := "get :a do"
    let behind : List Text := ["  post :b", "end"]
    let text : Text := "desc 'A'\nget :a do\n  post :b\nend\n"
    let block : Text := "desc 'A'\nget :a do\n  post :b\nend"
    (Reading.run 4 (.start []) front).2 = ⟨[], some ⟨[], front, .between⟩⟩ ∧
    trim handler = HttpMethod.get.verb ++ " :a do" ∧ endsWord " :a do" = true ∧
    lines text = front ++ handler :: behind ∧ blocks 4 text = [⟨.description, [], block⟩] ∧
    IsFirstMethod .get block := by
  intro front handler behind text block
  have hread : (Reading.run 4 (.start []) front).2 = ⟨[], some ⟨[], front, .between⟩⟩ := by decide +kernel
  have hverb : trim handler = HttpMethod.get.verb ++ " :a do" := rfl
  have hword : endsWord " :a do" = true := rfl
  have htext : lines text = front ++ handler :: behind := by decide +kernel
  have hblocks : blocks 4 text = [⟨.description, [], block⟩] := by decide +kernel
  obtain ⟨back, more, -, hblocks', -, -, hmethod⟩ := httpMethod_of_handler 4 hread hverb hword htext
  refine ⟨hread, hverb, hword, htext, hblocks, ?_⟩
  have hfront : (Reading.run 4 (.start []) front).1 = [] := by decide +kernel
  rw [hblocks, hfront] at hblocks'
  obtain ⟨hblock, -⟩ := List.cons.inj hblocks'
  have hfirst := (hmethod ⟨[], [], []⟩ none).1 .get
  rw [← (Block.mk.inj hblock).2.2] at hfirst
  exact hfirst.mp (by decide +kernel)

/-- A route whose path begins with a slash has no name, so that the method is missing, or is the one of a line of the
    handler that looks like a route. -/
theorem httpMethod_lost_and_misread :
    let front : List Text := ["desc 'Pages'"]
    let handler : Text := "get '/pages' do"
    let behind : List Text := ["  @client.list", "end"]
    let behind' : List Text := ["  post :audit", "end"]
    let text : Text := "desc 'Pages'\nget '/pages' do\n  @client.list\nend\n"
    let block : Text := "desc 'Pages'\nget '/pages' do\n  @client.list\nend"
    let text' : Text := "desc 'Pages'\nget '/pages' do\n  post :audit\nend\n"
    let block' : Text := "desc 'Pages'\nget '/pages' do\n  post :audit\nend"
    (Reading.run 4 (.start []) front).2 = ⟨[], some ⟨[], front, .between⟩⟩ ∧
    Line.handlerMethod? (trim handler) = some .get ∧
    lines text = front ++ handler :: behind ∧ blocks 4 text = [⟨.description, [], block⟩] ∧
    (∀ file context, (ofBlock file context block).httpMethod = none) ∧
    lines text' = front ++ handler :: behind' ∧ blocks 4 text' = [⟨.description, [], block'⟩] ∧
    ∀ file context, (ofBlock file context block').httpMethod = some .post := by
  refine ⟨by decide +kernel, by decide +kernel, by decide +kernel, by decide +kernel, fun file context => ?_,
    by decide +kernel, by decide +kernel, fun file context => ?_⟩
  · rw [httpMethod_ofBlock]
    decide +kernel
  · rw [httpMethod_ofBlock]
    decide +kernel

end EndpointAtlas.Endpoint
