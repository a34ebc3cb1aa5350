import EndpointAtlas.Proofs.Json.RoundTrip
import EndpointAtlas.Proofs.Text.Blank

/-! The text of an object with other white space between its fields. The same object is read whatever white space stands
    there, and so it is when runs of blanks become single spaces, as long as no name and no value holds a blank. -/

namespace EndpointAtlas.Json
open Text

variable {gap last t : Text} {fuel : Nat} {f : Text × Json} {fields : List (Text × Json)}

/-! ### Objects with gaps -/

/-- The text of a field of an outermost object. -/
def fieldText (f : Text × Json) : Text := quote f.1 ++ ": " ++ render 1 f.2

/-- What stands behind the first field: the others, each behind a gap, and the end of the object. -/
def moreFields (gap last : Text) (fields : List (Text × Json)) (t : Text) : Text :=
  (fields.flatMap fun f => ',' :: (gap ++ fieldText f)) ++ (last ++ '\x7d' :: t)

/-- The text of an object with a gap before each field and another one before the brace that closes. -/
def spaced (gap last : Text) : List (Text × Json) → Text
  | [] => "\x7b\x7d"
  | f :: fields => '\x7b' :: (gap ++ (fieldText f ++ moreFields gap last fields []))

theorem moreFields_cons (gap last : Text) (f : Text × Json) (fields : List (Text × Json)) (t : Text) :
    moreFields gap last (f :: fields) t = ',' :: (gap ++ (fieldText f ++ moreFields gap last fields t)) := by
  simp only [moreFields, List.flatMap_cons, List.cons_append, List.append_assoc]

theorem renderFields_eq_map (fields : List (Text × Json)) : renderFields 1 fields = fields.map fieldText := by
  induction fields with
  | nil => rfl
  | cons f fields ih => rw [renderFields, ih]; rfl

theorem pretty_object (fields : List (Text × Json)) :
    (object fields).pretty = spaced (newLine 1) (newLine 0) fields := by
  cases fields with
  | nil => rfl
  | cons f fields =>
    have hcontainer := container_cons_append 0 '\x7b' '\x7d' (fieldText f) (fields.map fieldText) []
    rw [List.append_nil, moreItems, List.flatMap_map] at hcontainer
    rw [pretty, render, renderFields_eq_map, List.map_cons, hcontainer]
    rfl

/-! ### Reading through gaps -/

theorem isNumberChar_of_isSpace {c : Char} (hc : isSpace c = true) : isNumberChar c = false := by
  simp only [isSpace, Bool.or_eq_true, beq_iff_eq] at hc
  rcases hc with ((rfl | rfl) | rfl) | rfl <;> rfl

theorem skip_append (hgap : ∀ c ∈ gap, isSpace c = true) (t : Text) : skip (gap ++ t) = skip t :=
  List.dropWhile_append_of_pos hgap

theorem endsNumber_moreFields (hlast : ∀ c ∈ last, isSpace c = true) (gap : Text) (fields : List (Text × Json))
    (t : Text) : EndsNumber (moreFields gap last fields t) := by
  cases fields with
  | nil =>
    cases last with
    | nil =>
      rintro c ⟨⟩
      rfl
    | cons c last =>
      rintro _ ⟨⟩
      exact isNumberChar_of_isSpace (hlast c List.mem_cons_self)
  | cons f fields =>
    rw [moreFields_cons]
    rintro c ⟨⟩
    rfl

theorem skip_moreFields_nil (hlast : ∀ c ∈ last, isSpace c = true) (t : Text) :
    skip (moreFields gap last [] t) = '\x7d' :: t := by
  show skip (last ++ '\x7d' :: t) = _
  rw [skip_append hlast, skip_cons rfl]

theorem skip_moreFields_cons (gap last : Text) (f : Text × Json) (fields : List (Text × Json)) (t : Text) :
    skip (moreFields gap last (f :: fields) t) = ',' :: (gap ++ (fieldText f ++ moreFields gap last fields t)) := by
  rw [moreFields_cons, skip_cons rfl]

theorem fieldText_append (f : Text × Json) (t : Text) :
    fieldText f ++ t = '"' :: (f.1.flatMap escape ++ '"' :: ':' :: ' ' :: (render 1 f.2 ++ t)) :=
  renderField_append f.1 (render 1 f.2) t

/-- The parts of a field are read one after the other, whatever stands behind it. -/
theorem read_field (hf : f.2.isValid = true) (hfuel : (fieldText f).length ≤ fuel) (ht : EndsNumber t) :
    readString? fuel (f.1.flatMap escape ++ '"' :: ':' :: ' ' :: (render 1 f.2 ++ t)) =
      some (f.1, ':' :: ' ' :: (render 1 f.2 ++ t)) ∧
    skip (' ' :: (render 1 f.2 ++ t)) = render 1 f.2 ++ t ∧ readValue? fuel (render 1 f.2 ++ t) = some (f.2, t) := by
  have hescaped := length_le_length_escaped f.1
  rw [fieldText, length_renderField] at hfuel
  exact ⟨readString?_escaped (by omega) _, skip_render_append hf 1 t, readValue?_render f.2 hf (by omega) ht⟩

section Gaps
variable (hgap : ∀ c ∈ gap, isSpace c = true) (hlast : ∀ c ∈ last, isSpace c = true)
include hgap hlast

theorem readFields?_spaced (hf : f.2.isValid = true) (hfields : fieldsAreValid fields = true)
    (hfuel : (fieldText f ++ moreFields gap last fields []).length ≤ fuel) (t : Text) :
    readFields? fuel (fieldText f ++ moreFields gap last fields t) = some (f :: fields, t) := by
  induction fields generalizing f fuel with
  | nil =>
    obtain ⟨n, rfl, hn⟩ : ∃ n, fuel = n + 1 ∧ (fieldText f).length ≤ n := by
      refine ⟨fuel - 1, ?_⟩
      rw [List.length_append, moreFields, List.length_append, List.length_append, List.length_cons] at hfuel
      omega
    obtain ⟨hname, hskip, hvalue⟩ := read_field hf hn (endsNumber_moreFields hlast gap [] t)
    rw [fieldText_append]
    exact readFields?_of_closing hname hskip hvalue (skip_moreFields_nil hlast t)
  | cons g fields ih =>
    obtain ⟨hg, hfields⟩ := Bool.and_eq_true_iff.mp hfields
    obtain ⟨n, rfl, hn, hmore⟩ : ∃ n, fuel = n + 1 ∧ (fieldText f).length ≤ n ∧
        (fieldText g ++ moreFields gap last fields []).length ≤ n := by
      refine ⟨fuel - 1, ?_⟩
      rw [moreFields_cons, List.length_append, List.length_cons, @List.length_append _ gap] at hfuel
      omega
    obtain ⟨hname, hskip, hvalue⟩ := read_field hf hn (endsNumber_moreFields hlast gap (g :: fields) t)
    have hquote : skip (fieldText g ++ moreFields gap last fields t) = fieldText g ++ moreFields gap last fields t := by
      rw [fieldText_append, skip_cons rfl]
    rw [fieldText_append, readFields?_of_comma hname hskip hvalue (skip_moreFields_cons gap last g fields t),
      skip_append hgap, hquote, ih hg hfields hmore]
    rfl

/-- An object is read through any white space between its fields. -/
theorem ofText?_spaced (hfields : fieldsAreValid fields = true) :
    ofText? (spaced gap last fields) = some (object fields) := by
  cases fields with
  | nil => rfl
  | cons f fields =>
    obtain ⟨hf, hfields⟩ := Bool.and_eq_true_iff.mp hfields
    have hlength : (fieldText f ++ moreFields gap last fields []).length ≤ (spaced gap last (f :: fields)).length := by
      rw [spaced, List.length_cons, @List.length_append _ gap]
      omega
    have hread := readFields?_spaced hgap hlast hf hfields hlength []
    have hskip := skip_append hgap (fieldText f ++ moreFields gap last fields [])
    rw [fieldText_append] at hread hskip
    rw [skip_cons rfl] at hskip
    rw [ofText?, spaced, skip_cons rfl, readValue?_object (by rw [fieldText_append]; exact hskip) (by decide), ← spaced,
      hread]
    rfl

end Gaps

/-! ### Squeezed objects -/

/-- A field without blanks in its name and its value. -/
structure IsDense (f : Text × Json) : Prop where
  name : ∀ c ∈ quote f.1, isBlank c = false
  value : ∀ c ∈ render 1 f.2, isBlank c = false
  valid : f.2.isValid = true

theorem IsDense.squeezeBlanks_append (h : IsDense f) (t : Text) :
    squeezeBlanks (fieldText f ++ t) = fieldText f ++ squeezeBlanks t := by
  obtain ⟨c, u, hvalue, -⟩ := exists_render_eq_cons h.valid 1
  have hc : isBlank c = false := h.value c (by rw [hvalue]; exact List.mem_cons_self)
  have hspace : squeezeBlanks (' ' :: (render 1 f.2 ++ t)) = ' ' :: squeezeBlanks (render 1 f.2 ++ t) := by
    rw [hvalue]
    exact squeezeBlanks_append_cons (List.cons_ne_nil ' ' []) (List.all_eq_true.mp rfl) hc (u ++ t)
  have hsplit : fieldText f ++ t = quote f.1 ++ (':' :: ' ' :: (render 1 f.2 ++ t)) := by
    rw [fieldText, List.append_assoc, List.append_assoc]
    rfl
  rw [hsplit, squeezeBlanks_append_of_not_isBlank h.name, squeezeBlanks_cons_of_not_isBlank rfl, hspace,
    squeezeBlanks_append_of_not_isBlank h.value, fieldText, List.append_assoc, List.append_assoc]
  rfl

section Squeezed
variable (hgap : ∀ c ∈ gap, isBlank c = true) (hne : gap ≠ [])
include hgap hne

theorem IsDense.squeezeBlanks_gap_append (h : IsDense f) (t : Text) :
    squeezeBlanks (gap ++ (fieldText f ++ t)) = ' ' :: (fieldText f ++ squeezeBlanks t) := by
  rw [← h.squeezeBlanks_append t, fieldText_append]
  exact squeezeBlanks_append_cons hne hgap rfl _

variable (hlast : ∀ c ∈ last, isBlank c = true) (hne' : last ≠ [])
include hlast hne'

theorem squeezeBlanks_moreFields (h : ∀ f ∈ fields, IsDense f) :
    squeezeBlanks (moreFields gap last fields []) = moreFields " " " " fields [] := by
  induction fields with
  | nil => exact squeezeBlanks_append_cons hne' hlast rfl []
  | cons f fields ih =>
    obtain ⟨hf, hfields⟩ := List.forall_mem_cons.mp h
    rw [moreFields_cons, squeezeBlanks_cons_of_not_isBlank rfl, hf.squeezeBlanks_gap_append hgap hne, ih hfields,
      moreFields_cons]
    rfl

/-- With its blanks squeezed, an object without blanks in its fields has single spaces between them. -/
theorem squeezeBlanks_spaced (h : ∀ f ∈ fields, IsDense f) :
    squeezeBlanks (spaced gap last fields) = spaced " " " " fields := by
  cases fields with
  | nil => rfl
  | cons f fields =>
    obtain ⟨hf, hfields⟩ := List.forall_mem_cons.mp h
    rw [spaced, squeezeBlanks_cons_of_not_isBlank rfl, hf.squeezeBlanks_gap_append hgap hne,
      squeezeBlanks_moreFields hgap hne hlast hne' hfields]
    rfl

end Squeezed

end EndpointAtlas.Json
