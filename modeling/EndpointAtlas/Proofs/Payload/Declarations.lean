import EndpointAtlas.Parameter
import EndpointAtlas.Proofs.Text.Blank
import EndpointAtlas.Proofs.Text.First
import EndpointAtlas.Proofs.Text.Words

/-! The declarations of parameters, told by their parts. A line declares the parameter of the first declaration that
    stands on it, wherever on the line that is. -/

namespace EndpointAtlas.Parameter
open Text

variable {before : Option Char} {s t u l rest : Text} {p : Parameter}

/-! ### Declarations -/

/-- A declaration in its parts. Its two markers may be written in any case. -/
structure Declaration where
  keyword : Text
  blanks : Text
  name : Text
  gap : Text
  label : Text
  space : Text
  type : Text
  keyword_cases : keyword.map foldCase = "optional" ∨ keyword.map foldCase = "requires"
  blanks_ne_nil : blanks ≠ []
  isBlank_blanks : ∀ c ∈ blanks, isBlank c = true
  isWord_name : IsWord name
  isBlank_gap : ∀ c ∈ gap, isBlank c = true
  label_eq : label.map foldCase = "type:"
  isBlank_space : ∀ c ∈ space, isBlank c = true
  isWord_type : IsWord type

namespace Declaration
variable (d : Declaration)

/-- The declaration as it is written. -/
def text : Text := d.keyword ++ (d.blanks ++ ':' :: (d.name ++ ',' :: (d.gap ++ (d.label ++ (d.space ++ d.type)))))

theorem endsUnblank_text : EndsUnblank d.text := by
  have hsplit : d.text =
      (d.keyword ++ (d.blanks ++ ':' :: (d.name ++ ',' :: (d.gap ++ (d.label ++ d.space))))) ++ d.type := by
    simp only [text, List.append_assoc, List.cons_append]
  rw [hsplit]
  exact d.isWord_type.endsUnblank.append _

/-- The parameter that a declaration declares. -/
def parameter : Parameter := ⟨d.name, .ofTypeName d.type⟩

end Declaration

/-- A declaration of the parameter stands at the beginning of a text. -/
def DeclaredAt : Pattern Parameter := fun p t rest =>
  ∃ d : Declaration, t = d.text ++ rest ∧ endsWord rest = true ∧ d.parameter = p

/-- The first declaration on the line declares the parameter. -/
def Declares (line : Text) (p : Parameter) : Prop := ∃ rest, ReadsFirst DeclaredAt line p rest

/-! ### Markers in any case -/

theorem dropLeadFolded?_eq_some_iff {lead : Text} :
    dropLeadFolded? lead t = some rest ↔ ∃ s, t = s ++ rest ∧ s.map foldCase = lead := by
  induction lead generalizing t with
  | nil => simp [dropLeadFolded?, eq_comm]
  | cons a lead ih =>
    cases t with
    | nil => simp [dropLeadFolded?]
    | cons c t =>
      rw [dropLeadFolded?]
      by_cases hc : a = foldCase c
      · rw [if_pos hc, ih]
        constructor
        · rintro ⟨s, rfl, hs⟩
          exact ⟨c :: s, rfl, by rw [List.map_cons, hs, hc]⟩
        · rintro ⟨_ | ⟨e, s⟩, hsplit, hs⟩
          · cases hs
          · obtain ⟨rfl, rfl⟩ := List.cons.inj hsplit
            exact ⟨s, rfl, (List.cons.inj hs).2⟩
      · rw [if_neg hc]
        refine iff_of_false (fun h => by cases h) ?_
        rintro ⟨_ | ⟨e, s⟩, hsplit, hs⟩
        · cases hs
        · obtain ⟨rfl, rfl⟩ := List.cons.inj hsplit
          exact hc (List.cons.inj hs).1.symm

theorem foldCase_of_isBlank {c : Char} (hc : isBlank c = true) : foldCase c = c := by
  have hcode : c.toNat ∈ blankCodes := List.contains_iff_mem.mp hc
  have hsame : ∀ n ∈ blankCodes, foldCase (Char.ofNat n) = Char.ofNat n := by decide +kernel
  have hchar := hsame _ hcode
  rwa [Char.ofNat_toNat] at hchar

/-- A marker in any case begins with no blank where the marker does not. -/
theorem isBlank_head_of_folded {a : Char} {lead : Text} (h : s.map foldCase = a :: lead) (ha : isBlank a = false)
    (t : Text) : ∀ c ∈ (s ++ t).head?, isBlank c = false := by
  cases s with
  | nil => cases h
  | cons c s =>
    rintro _ ⟨⟩
    rw [Bool.eq_false_iff]
    intro hc
    rw [List.map_cons, foldCase_of_isBlank hc] at h
    rw [(List.cons.inj h).1, ha] at hc
    cases hc

/-! ### Reading a declaration -/

theorem keyword?_eq_some_iff : (dropLeadFolded? "optional" t <|> dropLeadFolded? "requires" t) = some rest ↔
    ∃ s, t = s ++ rest ∧ (s.map foldCase = "optional" ∨ s.map foldCase = "requires") := by
  rw [orElse_eq_some_iff, dropLeadFolded?_eq_some_iff, dropLeadFolded?_eq_some_iff]
  constructor
  · rintro (⟨s, rfl, hs⟩ | ⟨-, s, rfl, hs⟩)
    · exact ⟨s, rfl, Or.inl hs⟩
    · exact ⟨s, rfl, Or.inr hs⟩
  · rintro ⟨s, rfl, hs | hs⟩
    · exact Or.inl ⟨s, rfl, hs⟩
    · -- The two words differ in their first letter.
      refine Or.inr ⟨?_, s, rfl, hs⟩
      rw [Option.eq_none_iff_forall_ne_some]
      intro rest' hrest'
      obtain ⟨s', hsplit, hs'⟩ := dropLeadFolded?_eq_some_iff.mp hrest'
      have hhead := congrArg (fun t => (t.map foldCase).head?) hsplit
      have hfirst : ("requires" : Text).head? = some 'r' := by decide
      have hfirst' : ("optional" : Text).head? = some 'o' := by decide
      simp only [List.map_append, hs, hs', List.head?_append, hfirst, hfirst', Option.some_or, Option.some.injEq] at hhead
      exact absurd hhead (by decide)

theorem eq_of_read? (h : read? before t = some (p, rest)) : DeclaredAt p t rest := by
  obtain ⟨t₁, h₁, h⟩ := Option.bind_eq_some_iff.mp h
  obtain ⟨⟨name, t₂⟩, h₂, h⟩ := Option.bind_eq_some_iff.mp h
  obtain ⟨t₃, h₃, h⟩ := Option.bind_eq_some_iff.mp h
  obtain ⟨t₄, h₄, h⟩ := Option.bind_eq_some_iff.mp h
  obtain ⟨⟨type, t₅⟩, h₅, h⟩ := Option.bind_eq_some_iff.mp h
  cases h
  obtain ⟨u, hread, hgap⟩ := Option.bind_eq_some_iff.mp h₁
  obtain ⟨keyword, rfl, hkeyword⟩ := keyword?_eq_some_iff.mp hread
  obtain ⟨blanks, rfl, hne, hblank⟩ := eq_of_blanks? hgap
  obtain ⟨v, hcolon, hread⟩ := Option.bind_eq_some_iff.mp h₂
  obtain ⟨hname, -, rfl⟩ := word?_eq_some_iff.mp hread
  obtain ⟨label, hlabel, hfolded⟩ := dropLeadFolded?_eq_some_iff.mp h₄
  obtain ⟨htype, hend, hsplit⟩ := word?_eq_some_iff.mp h₅
  rw [dropLead?_eq_some_iff] at hcolon h₃
  refine ⟨⟨keyword, blanks, name, t₃.takeWhile isBlank, label, t₄.takeWhile isBlank, type, hkeyword, hne, hblank, hname,
    fun c hc => List.mem_takeWhile_imp hc, hfolded, fun c hc => List.mem_takeWhile_imp hc, htype⟩, ?_, hend, rfl⟩
  have hgap : t₃ = t₃.takeWhile isBlank ++ (label ++ t₄) := by
    rw [← hlabel, trimStart, List.takeWhile_append_dropWhile]
  have hspace : t₄ = t₄.takeWhile isBlank ++ (type ++ rest) := by
    rw [← hsplit, trimStart, List.takeWhile_append_dropWhile]
  calc keyword ++ (blanks ++ t₁)
      = keyword ++ (blanks ++ ':' :: (name ++ ',' :: t₃)) := by rw [hcolon, h₃]; rfl
    _ = keyword ++ (blanks ++ ':' :: (name ++ ',' :: (t₃.takeWhile isBlank ++ (label ++
          (t₄.takeWhile isBlank ++ (type ++ rest)))))) := by rw [← hspace, ← hgap]
    _ = _ := by simp only [Declaration.text, List.append_assoc, List.cons_append]

theorem Declaration.read?_append (d : Declaration) (hrest : endsWord rest = true) (before : Option Char) :
    read? before (d.text ++ rest) = some (d.parameter, rest) := by
  have hkeyword : ∀ t, (dropLeadFolded? "optional" (d.keyword ++ t) <|> dropLeadFolded? "requires" (d.keyword ++ t)) =
      some t := fun t => keyword?_eq_some_iff.mpr ⟨d.keyword, rfl, d.keyword_cases⟩
  have hblanks : ∀ t, blanks? (d.blanks ++ ':' :: t) = some (':' :: t) := fun t =>
    blanks?_append d.blanks_ne_nil d.isBlank_blanks (by rintro _ ⟨⟩; rfl)
  have hcolon : ∀ t, dropLead? ":" (':' :: t) = some t := fun t => rfl
  have hname : ∀ t, word? (d.name ++ ',' :: t) = some (d.name, ',' :: t) := fun t =>
    word?_eq_some_iff.mpr ⟨d.isWord_name, rfl, rfl⟩
  have hcomma : ∀ t, dropLead? "," (',' :: t) = some t := fun t => rfl
  have hgap : ∀ t, trimStart (d.gap ++ (d.label ++ t)) = d.label ++ t := fun t =>
    trimStart_append_of_isBlank d.isBlank_gap (isBlank_head_of_folded d.label_eq rfl t)
  have hlabel : ∀ t, dropLeadFolded? "type:" (d.label ++ t) = some t := fun t =>
    dropLeadFolded?_eq_some_iff.mpr ⟨d.label, rfl, d.label_eq⟩
  have hspace : trimStart (d.space ++ (d.type ++ rest)) = d.type ++ rest :=
    trimStart_append_of_isBlank d.isBlank_space (d.isWord_type.isBlank_head rest)
  have htype : word? (d.type ++ rest) = some (d.type, rest) := word?_eq_some_iff.mpr ⟨d.isWord_type, hrest, rfl⟩
  simp only [read?, Declaration.text, List.append_assoc, List.cons_append, Option.bind_eq_bind, Option.bind_some,
    hkeyword, hblanks, hcolon, hname, hcomma, hgap, hlabel, hspace, htype]
  rfl

theorem reads_read? : Reads read? DeclaredAt := by
  intro before t p rest
  constructor
  · exact eq_of_read?
  · rintro ⟨d, rfl, hrest, rfl⟩
    exact d.read?_append hrest before

/-! ### Blanks around a declaration -/

variable {c : Char} {blanks : Text}

theorem DeclaredAt.isBlank_head (h : DeclaredAt p t rest) : ∃ c u, t = c :: u ∧ isBlank c = false := by
  obtain ⟨d, rfl, -⟩ := h
  have hhead : ∀ u, ∀ c ∈ (d.keyword ++ u).head?, isBlank c = false := by
    rcases d.keyword_cases with hkeyword | hkeyword
    · exact isBlank_head_of_folded hkeyword rfl
    · exact isBlank_head_of_folded hkeyword rfl
  have hne : d.text ++ rest ≠ [] := by simp [Declaration.text]
  obtain ⟨c, u, hcu⟩ := List.exists_cons_of_ne_nil hne
  refine ⟨c, u, hcu, ?_⟩
  rw [Declaration.text, List.append_assoc] at hcu
  exact hhead _ c (by rw [hcu]; rfl)

/-- A declaration ends with the name of its type, and so no blanks behind it belong to it. -/
theorem declaredAt_append_iff (hblanks : ∀ c ∈ blanks, isBlank c = true) :
    DeclaredAt p (t ++ blanks) rest ↔ ∃ rest', rest = rest' ++ blanks ∧ DeclaredAt p t rest' := by
  have hend : ∀ u, endsWord (u ++ blanks) = endsWord u := by
    rintro (_ | ⟨c, u⟩)
    · cases blanks with
      | nil => rfl
      | cons c blanks =>
        rw [List.nil_append, endsWord, List.head?_cons, Option.any_some,
          isWordChar_of_isBlank (hblanks c List.mem_cons_self)]
        rfl
    · rfl
  constructor
  · rintro ⟨d, hsplit, hrest, rfl⟩
    rcases List.append_eq_append_iff.mp hsplit with ⟨x, hx, hblank⟩ | ⟨x, rfl, rfl⟩
    · cases x with
      | nil =>
        obtain rfl : rest = blanks := hblank.symm
        rw [List.append_nil] at hx
        exact ⟨[], rfl, d, by rw [List.append_nil, hx], rfl, rfl⟩
      | cons c x =>
        -- The last character of the declaration would be a blank.
        obtain ⟨y, e, hy, he⟩ := d.endsUnblank_text
        obtain ⟨x', e', hx'⟩ := (List.eq_nil_or_concat (c :: x)).resolve_left (List.cons_ne_nil c x)
        rw [List.concat_eq_append] at hx'
        rw [hx, hx', ← List.append_assoc] at hy
        obtain rfl : e' = e := List.singleton_inj.mp (List.append_inj' hy rfl).2
        have hmem : e' ∈ blanks := by simp [hblank, hx']
        rw [hblanks e' hmem] at he
        cases he
    · exact ⟨x, rfl, d, rfl, by rwa [hend] at hrest, rfl⟩
  · rintro ⟨rest', rfl, d, rfl, hrest, rfl⟩
    exact ⟨d, by rw [List.append_assoc], by rwa [hend], rfl⟩

/-- The line that remains when the blanks behind it are gone has the same first declaration. -/
theorem declares_append_iff (hblanks : ∀ c ∈ blanks, isBlank c = true) : Declares (t ++ blanks) p ↔ Declares t p := by
  -- A declaration that stands on the whole line stands on the shorter one, and at the same place.
  have hplace : ∀ {s u p rest}, t ++ blanks = s ++ u → DeclaredAt p u rest →
      ∃ v rest', t = s ++ v ∧ DeclaredAt p v rest' := by
    intro s u p rest hsplit hdeclared
    rcases List.append_eq_append_iff.mp hsplit with ⟨x, -, hu⟩ | ⟨v, ht, rfl⟩
    · obtain ⟨c, u, rfl, hc⟩ := hdeclared.isBlank_head
      rw [hblanks c (by simp [hu])] at hc
      cases hc
    · obtain ⟨rest', -, hdeclared'⟩ := (declaredAt_append_iff hblanks).mp hdeclared
      exact ⟨v, rest', ht, hdeclared'⟩
  have hlonger : ∀ {s u p rest}, t = s ++ u → DeclaredAt p u rest →
      t ++ blanks = s ++ (u ++ blanks) ∧ DeclaredAt p (u ++ blanks) (rest ++ blanks) := fun hsplit hdeclared =>
    ⟨by rw [hsplit, List.append_assoc], (declaredAt_append_iff hblanks).mpr ⟨_, rfl, hdeclared⟩⟩
  constructor
  · rintro ⟨rest, s, u, hsplit, hdeclared, hfirst⟩
    obtain ⟨v, rest', ht, hdeclared'⟩ := hplace hsplit hdeclared
    refine ⟨rest', s, v, ht, hdeclared', fun s' u' p' r' hsplit' hdeclared' => ?_⟩
    obtain ⟨hsplit'', hdeclared''⟩ := hlonger hsplit' hdeclared'
    exact hfirst s' _ p' _ hsplit'' hdeclared''
  · rintro ⟨rest, s, u, hsplit, hdeclared, hfirst⟩
    obtain ⟨hsplit', hdeclared'⟩ := hlonger hsplit hdeclared
    refine ⟨rest ++ blanks, s, _, hsplit', hdeclared', fun s' u' p' r' hsplit' hdeclared' => ?_⟩
    obtain ⟨v, r'', ht, hdeclared''⟩ := hplace hsplit' hdeclared'
    exact hfirst s' v p' r'' ht hdeclared''

theorem first?_read?_eq_some_iff : first? read? t = some p ↔ Declares t p := reads_read?.first?_eq_some_iff

theorem declares_blanks_append_iff (hblanks : ∀ c ∈ blanks, isBlank c = true) :
    Declares (blanks ++ t) p ↔ Declares t p := by
  have hmisses : Misses read? none blanks t := misses_of_forall fun c hc before u => by
    rw [Option.eq_none_iff_forall_ne_some]
    rintro ⟨p, rest⟩ hread
    obtain ⟨c', u', hsplit, hc'⟩ := (reads_read?.mp hread).isBlank_head
    rw [← (List.cons.inj hsplit).1, hblanks c hc] at hc'
    cases hc'
  have hfind : find? read? none (blanks ++ t) = find? read? none t := by
    rw [find?_append_of_misses hmisses]
    refine Option.ext fun x => ?_
    obtain ⟨p, rest⟩ := x
    rw [reads_read?.find?_eq_some_iff, reads_read?.find?_eq_some_iff]
  rw [← first?_read?_eq_some_iff, ← first?_read?_eq_some_iff, first?, hfind, first?]

theorem ofLine?_eq_some_iff : ofLine? l = some p ↔ Declares l p := by
  obtain ⟨s, u, hl, hs, hu⟩ := exists_append_trim l
  rw [ofLine?, first?_read?_eq_some_iff]
  conv => rhs; rw [hl]
  rw [declares_blanks_append_iff hs, declares_append_iff hu]

/-- The parameters that lines declare, one for each line that holds a declaration. -/
inductive AreDeclared : List Text → List Parameter → Prop where
  | nil : AreDeclared [] []
  | declares {l : Text} {p : Parameter} {ls : List Text} {ps : List Parameter} (h : Declares l p)
      (hls : AreDeclared ls ps) : AreDeclared (l :: ls) (p :: ps)
  | skips {l : Text} {ls : List Text} {ps : List Parameter} (h : ∀ p, ¬ Declares l p) (hls : AreDeclared ls ps) :
      AreDeclared (l :: ls) ps

theorem areDeclared_iff {ls : List Text} {ps : List Parameter} :
    AreDeclared ls ps ↔ ls.filterMap ofLine? = ps := by
  constructor
  · intro h
    induction h with
    | nil => rfl
    | declares h _ ih => rw [List.filterMap_cons_some (ofLine?_eq_some_iff.mpr h), ih]
    | skips h _ ih =>
      rw [List.filterMap_cons_none, ih]
      rw [Option.eq_none_iff_forall_ne_some]
      exact fun p hp => h p (ofLine?_eq_some_iff.mp hp)
  · rintro rfl
    induction ls with
    | nil => exact .nil
    | cons l ls ih =>
      cases hl : ofLine? l with
      | some p =>
        rw [List.filterMap_cons_some hl]
        exact .declares (ofLine?_eq_some_iff.mp hl) ih
      | none =>
        rw [List.filterMap_cons_none hl]
        refine .skips (fun p hp => ?_) ih
        rw [ofLine?_eq_some_iff.mpr hp] at hl
        cases hl

end EndpointAtlas.Parameter
