import EndpointAtlas.Block.Line
import EndpointAtlas.Proofs.Canonical.Declaration
import EndpointAtlas.Proofs.Keyword.Scan

/-! The lines of a canonical declaration one by one: which characters stand in them, by how much each changes
    the nesting of bodies, and by how much that of braces. -/

namespace EndpointAtlas.Canonical
open Text

/-! ### Characters -/

theorem isBlank_of_isIdentChar {c : Char} (h : isIdentChar c = true) : isBlank c = false := by
  rw [Bool.eq_false_iff]
  intro hblank
  have hword := isWordChar_of_isIdentChar h
  rw [isWordChar_of_isBlank hblank] at hword
  cases hword

theorem isIdentChar_of_isCapital {c : Char} (h : isCapital c = true) : isIdentChar c = true := by
  have hupper : c.isUpper = true := h
  show (c.isUpper || c.isLower || c.isDigit || c == '_') = true
  rw [hupper]
  rfl

theorem ModuleName.chars_text (m : ModuleName) : ∀ c ∈ m.text, isIdentChar c = true := by
  intro c hc
  rcases List.mem_cons.mp hc with rfl | hc
  · exact isIdentChar_of_isCapital m.capital
  · exact m.chars c hc

theorem VersionName.chars_text (v : VersionName) : ∀ c ∈ v.text, isIdentChar c = true := by
  intro c hc
  rcases List.mem_cons.mp hc with rfl | hc
  · rfl
  · rw [isIdentChar, Char.isAlphanum, v.chars c hc]
    simp

/-- `t` is written in the characters of names, those of quoted texts, and those of `a`. -/
def IsOver (a t : Text) : Prop := ∀ c ∈ t, isIdentChar c = true ∨ isPhraseChar c = true ∨ c ∈ a

instance (a t : Text) : Decidable (IsOver a t) := List.decidableBAll _ t

section IsOver
variable {a b s t : Text}

theorem IsOver.append (hs : IsOver a s) (ht : IsOver a t) : IsOver a (s ++ t) := List.forall_mem_append.mpr ⟨hs, ht⟩

theorem IsOver.mono (hs : IsOver a s) (h : a ⊆ b) : IsOver b s :=
  fun c hc => (hs c hc).imp_right (Or.imp_right (@h c))

theorem IsOver.not_mem (hs : IsOver a s) {c : Char} (hident : isIdentChar c = false)
    (hphrase : isPhraseChar c = false) (hc : c ∉ a) : c ∉ s := by
  intro hmem
  rcases hs c hmem with h | h | h
  · rw [hident] at h
    cases h
  · rw [hphrase] at h
    cases h
  · exact hc h

theorem isOver_replicate_space (n : Nat) : IsOver a (List.replicate n ' ') := by
  intro c hc
  rw [List.eq_of_mem_replicate hc]
  exact Or.inr (Or.inl rfl)

theorem IsOver.indented (n : Nat) (h : IsOver a t) : IsOver a (indented n t) := (isOver_replicate_space n).append h

theorem IsOver.isPlainLine (h : IsOver a t) (hn : '\n' ∉ a) (hr : '\r' ∉ a) : IsPlainLine t :=
  ⟨h.not_mem rfl rfl hn, h.not_mem rfl rfl hr⟩

theorem IsOver.onNewLines {ls : List Text} (h : ∀ l ∈ ls, IsOver a l) : IsOver ('\n' :: a) (onNewLines ls) := by
  intro c hc
  obtain ⟨l, hl, hc⟩ := List.mem_flatMap.mp hc
  rcases List.mem_cons.mp hc with rfl | hc
  · exact Or.inr (Or.inr List.mem_cons_self)
  · exact (h l hl).mono (List.subset_cons_self _ _) c hc

theorem Phrase.isOver (p : Phrase) : IsOver a p.text := fun c hc => Or.inr (Or.inl (p.chars c hc))

theorem isOver_of_isIdentChar (h : ∀ c ∈ t, isIdentChar c = true) : IsOver a t := fun c hc => Or.inl (h c hc)

theorem Name.isOver (n : Name) : IsOver a n.text := isOver_of_isIdentChar n.chars

end IsOver

theorem Phrase.not_mem (p : Phrase) {c : Char} (hc : isPhraseChar c = false) : c ∉ p.text := by
  intro hmem
  rw [p.chars c hmem] at hc
  cases hc

/-! ### The lines of each part -/

theorem Header.forall_mem_lines (h : Header) {p : Text → Prop} (hname : ∀ n, p (indented n h.nameContent))
    (hdescription : ∀ n, p (indented n h.descriptionContent)) (hclose : ∀ n, p (indented n "\x7d,")) :
    ∀ l ∈ h.lines, p l := by
  intro l hl
  simp only [lines, List.mem_cons, List.not_mem_nil, or_false] at hl
  rcases hl with rfl | rfl | rfl
  · exact hname _
  · exact hdescription _
  · exact hclose _

theorem Declaration.forall_mem_headerLines (d : Declaration) {p : Text → Prop}
    (hopen : ∀ n, p (indented n "headers: \x7b")) (hheader : ∀ h : Header, ∀ l ∈ h.lines, p l)
    (hclose : ∀ n, p (indented n "\x7d")) : ∀ l ∈ d.headerLines, p l := by
  intro l hl
  simp only [headerLines, List.cons_append, List.mem_cons, List.mem_append, List.mem_flatMap, List.not_mem_nil,
    or_false] at hl
  rcases hl with rfl | ⟨h, -, hl⟩ | rfl | rfl
  · exact hopen _
  · exact hheader h l hl
  · exact hclose _
  · exact hclose _

theorem Declaration.forall_mem_paramsLines (d : Declaration) {p : Text → Prop}
    (hopen : ∀ n, p (indented n "params do")) (hparam : ∀ q : Param, p q.line)
    (hend : ∀ n, p (indented n "end")) : ∀ l ∈ d.paramsLines, p l := by
  intro l hl
  simp only [paramsLines, List.cons_append, List.mem_cons, List.mem_append, List.mem_map, List.not_mem_nil,
    or_false] at hl
  rcases hl with rfl | ⟨q, -, rfl⟩ | rfl
  · exact hopen _
  · exact hparam q
  · exact hend _

/-! ### The characters of each line -/

namespace Header
variable (h : Header)

theorem isOver_nameContent : IsOver "'=>\x7b" h.nameContent :=
  .append (.append (by decide) h.name.isOver) (by decide)

theorem isOver_descriptionContent : IsOver "':" h.descriptionContent :=
  .append (.append (by decide) h.description.isOver) (by decide)

theorem isOver : ∀ l ∈ h.lines, IsOver "',:=>\x7b\x7d" l :=
  h.forall_mem_lines (fun _ => (h.isOver_nameContent.mono (by decide)).indented _)
    (fun _ => (h.isOver_descriptionContent.mono (by decide)).indented _) fun _ => .indented _ (by decide)

end Header

theorem Param.keyword_cases (p : Param) : p.keyword = "requires" ∨ p.keyword = "optional" := by
  unfold keyword
  split
  · exact Or.inl rfl
  · exact Or.inr rfl

theorem Param.content_ne_nil (p : Param) : p.content ≠ [] := by
  unfold content
  rcases p.keyword_cases with h | h
  · rw [h]
    exact List.cons_ne_nil _ _
  · rw [h]
    exact List.cons_ne_nil _ _

theorem Param.isOver_content (p : Param) : IsOver ",:" p.content := by
  have hkeyword : IsOver ",:" p.keyword := by
    rcases p.keyword_cases with h | h
    · rw [h]
      decide
    · rw [h]
      decide
  exact .append (.append (.append (.append hkeyword (by decide)) p.name.isOver) (by decide)) p.type.isOver

theorem isOver_modulePath (ms : List ModuleName) : IsOver ":" (modulePath ms) := by
  induction ms with
  | nil => exact fun c hc => by cases hc
  | cons m ms ih =>
    rw [modulePath, List.flatMap_cons]
    exact ((isOver_of_isIdentChar m.chars_text).append (by decide)).append ih

theorem ClientClass.isOver (k : ClientClass) : IsOver ":" k.text :=
  .append (.append (.append (isOver_modulePath _) (isOver_of_isIdentChar k.version.chars_text)) (by decide))
    (isOver_of_isIdentChar k.name.chars_text)

namespace Declaration
variable (d : Declaration)

theorem isOver_titleContent : IsOver "',\x7b" d.titleContent :=
  .append (.append (by decide) d.title.isOver) (by decide)

theorem isOver_headerLines : ∀ l ∈ d.headerLines, IsOver "',:=>\x7b\x7d" l :=
  d.forall_mem_headerLines (fun _ => .indented _ (by decide)) Header.isOver fun _ => .indented _ (by decide)

theorem isOver_paramsLines : ∀ l ∈ d.paramsLines, IsOver ",:" l :=
  d.forall_mem_paramsLines (fun _ => .indented _ (by decide)) (fun p => p.isOver_content.indented _)
    fun _ => .indented _ (by decide)

theorem isOver_verbContent : IsOver ":" d.verbContent := by
  have hverb : IsOver ":" d.method.verb := by cases d.method <;> decide
  exact .append (.append (.append hverb (by decide)) d.route.isOver) (by decide)

theorem isOver_clientContent : IsOver ":=()" d.clientContent :=
  .append (.append (by decide) (d.client.isOver.mono (by decide))) (by decide)

theorem isOver_callContent : IsOver ".()" d.callContent :=
  .append (.append (by decide) d.call.isOver) (by decide)

theorem isOver_handlerLines : ∀ l ∈ d.handlerLines, IsOver ":=.()" l := by
  intro l hl
  simp only [handlerLines, List.mem_cons, List.not_mem_nil, or_false] at hl
  rcases hl with rfl | rfl | rfl | rfl
  · exact .indented _ (d.isOver_verbContent.mono (by decide))
  · exact .indented _ (d.isOver_clientContent.mono (by decide))
  · exact .indented _ (d.isOver_callContent.mono (by decide))
  · exact .indented _ (by decide)

theorem isPlainLine_of_mem_lines : ∀ l ∈ d.lines, IsPlainLine l := by
  intro l hl
  simp only [lines, List.cons_append, List.mem_cons, List.mem_append, or_assoc] at hl
  rcases hl with rfl | hl | hl | hl
  · exact (d.isOver_titleContent.indented _).isPlainLine (by decide) (by decide)
  · exact (d.isOver_headerLines l hl).isPlainLine (by decide) (by decide)
  · exact (d.isOver_paramsLines l hl).isPlainLine (by decide) (by decide)
  · exact (d.isOver_handlerLines l hl).isPlainLine (by decide) (by decide)

end Declaration

/-! ### Keywords -/

section Keywords
open Keyword
variable {last : Option Char} {t : Text}

theorem head?_cons_eq_false (p : Char → Bool) {c : Char} (h : p c = false) (t : Text) :
    ∀ d ∈ (c :: t).head?, p d = false := by
  intro d hd
  cases hd
  exact h

theorem Name.text_ne_do (n : Name) : n.text ≠ "do" := by
  intro h
  have hne := n.ne_do
  rw [h] at hne
  exact hne rfl

theorem Name.text_ne_end (n : Name) : n.text ≠ "end" := by
  intro h
  have hne := n.ne_end
  rw [h] at hne
  exact hne rfl

theorem Name.scanFrom_append (n : Name) (o : Nat) (ht : ∀ c ∈ t.head?, isIdentChar c = false)
    (h : beginsStatement last t = false) :
    scanFrom o last false (n.text ++ t) = scanFrom (o + byteLength n.text) n.text.getLast? false t := by
  rw [scanFrom_word n.ne_nil n.chars ht, ofWord?_of_not_beginsStatement n.text_ne_do n.text_ne_end h]
  rfl

theorem ModuleName.isQuiet_append (m : ModuleName) (ht : ∀ c ∈ t.head?, isIdentChar c = false)
    (h : IsQuiet m.text.getLast? t) : IsQuiet last (m.text ++ t) :=
  isQuiet_word (List.cons_ne_nil _ _) m.chars_text ht (ofWord?_of_isCapital m.capital) h

theorem isQuiet_modulePath_append (ms : List ModuleName) (h : ∀ last, IsQuiet last t) :
    IsQuiet last (modulePath ms ++ t) := by
  induction ms generalizing last with
  | nil => exact h last
  | cons m ms ih =>
    have hsplit : modulePath (m :: ms) ++ t = m.text ++ ("::" ++ (modulePath ms ++ t)) := by simp [modulePath]
    rw [hsplit]
    exact m.isQuiet_append (head?_cons_eq_false isIdentChar rfl _) (isQuiet_cons rfl (isQuiet_cons rfl ih))

theorem ClientClass.isQuiet_append (k : ClientClass) : IsQuiet last (k.text ++ ")") := by
  have hsplit : k.text ++ ")" =
      modulePath (k.outer :: k.inner) ++ (k.version.text ++ ("::" ++ (k.name.text ++ ")"))) := by
    simp [ClientClass.text]
  have hname : ∀ last, IsQuiet last ("::" ++ (k.name.text ++ ")")) := fun last =>
    isQuiet_cons rfl (isQuiet_cons rfl
      (k.name.isQuiet_append (head?_cons_eq_false isIdentChar rfl _) (isQuiet_cons rfl isQuiet_nil)))
  rw [hsplit]
  refine isQuiet_modulePath_append _ fun last => ?_
  exact isQuiet_word (List.cons_ne_nil _ _) k.version.chars_text (head?_cons_eq_false isIdentChar rfl _)
    (ofWord?_of_isCapital rfl) (hname _)

theorem Param.scanFrom_content (p : Param) (o : Nat) : scanFrom o none false p.content = [] := by
  have hkeyword : ∃ o', scanFrom o none false p.content =
      scanFrom o' (some ':') false (p.name.text ++ (", type: " ++ p.type.text)) := by
    unfold content
    rcases p.keyword_cases with h | h
    · rw [h]
      simp only [List.append_assoc, String.reduceToList]
      exact ⟨o + 10, rfl⟩
    · rw [h]
      simp only [List.append_assoc, String.reduceToList]
      exact ⟨o + 10, rfl⟩
  -- Behind a colon no statement begins, and names are neither `do` nor `end`.
  have hcomma : ∀ c ∈ (", type: " ++ p.type.text : Text).head?, isIdentChar c = false := by
    simp only [String.reduceToList]
    exact head?_cons_eq_false isIdentChar rfl _
  have htype : ∀ o' last, scanFrom o' last false (", type: " ++ p.type.text) =
      scanFrom (o' + 8) (some ':') false (p.type.text ++ []) := by
    intro o' last
    simp only [List.append_nil, String.reduceToList]
    rfl
  have hend : ∀ c ∈ ([] : Text).head?, isIdentChar c = false := fun c hc => by cases hc
  obtain ⟨o', hkeyword⟩ := hkeyword
  rw [hkeyword, p.name.scanFrom_append o' hcomma rfl, htype, p.type.scanFrom_append _ hend rfl]
  rfl

theorem Param.isQuiet_line (p : Param) : IsQuiet none p.line := by
  intro o
  rw [line, indented, scanFrom_replicate_space, p.scanFrom_content]

theorem Param.depthChange_line (p : Param) : depthChange p.line = 0 := depthChange_of_scan_eq_nil (p.isQuiet_line 0)

theorem scan_params (n : Nat) : scan (indented n "params do") = [⟨n + 7, .opener⟩] := by
  rw [scan_indented]
  simp only [String.reduceToList]
  rfl

theorem scan_end (n : Nat) : scan (indented n "end") = [⟨n, .closer⟩] := by
  rw [scan_indented]
  simp only [String.reduceToList]
  rfl

theorem depthChange_params (n : Nat) : depthChange (indented n "params do") = 1 :=
  depthChange_of_scan_eq_singleton (scan_params n)

theorem depthChange_end (n : Nat) : depthChange (indented n "end") = -1 :=
  depthChange_of_scan_eq_singleton (scan_end n)

namespace Declaration
variable (d : Declaration)

theorem scan_verb (n : Nat) : ∃ o, scan (indented n d.verbContent) = [⟨o, .opener⟩] := by
  have hverb : ∃ o, scanFrom n none false d.verbContent = scanFrom o (some ':') false (d.route.text ++ " do") := by
    unfold verbContent HttpMethod.verb
    simp only [List.append_assoc, String.reduceToList]
    cases d.method
    · exact ⟨n + 5, rfl⟩
    · exact ⟨n + 6, rfl⟩
    · exact ⟨n + 5, rfl⟩
    · exact ⟨n + 8, rfl⟩
    · exact ⟨n + 7, rfl⟩
  have hblank : ∀ c ∈ (" do" : Text).head?, isIdentChar c = false := head?_cons_eq_false isIdentChar rfl _
  obtain ⟨o, hverb⟩ := hverb
  refine ⟨o + byteLength d.route.text + 1, ?_⟩
  rw [scan_indented, hverb, d.route.scanFrom_append o hblank rfl]
  simp only [String.reduceToList]
  rfl

theorem scan_client (n : Nat) : scan (indented n d.clientContent) = [] := by
  have hclient : scanFrom n none false d.clientContent =
      scanFrom (n + 23) (some '(') false (d.client.text ++ ")") := by
    unfold clientContent
    simp only [List.append_assoc, String.reduceToList]
    rfl
  rw [scan_indented, hclient, d.client.isQuiet_append]

theorem scan_call (n : Nat) : scan (indented n d.callContent) = [] := by
  have hcall : scanFrom n none false d.callContent =
      scanFrom (n + 7) (some '.') false (d.call.text ++ "(params)") := by
    unfold callContent
    simp only [List.append_assoc, String.reduceToList]
    rfl
  have hparen : ∀ c ∈ ("(params)" : Text).head?, isIdentChar c = false := head?_cons_eq_false isIdentChar rfl _
  rw [scan_indented, hcall, d.call.scanFrom_append _ hparen rfl]
  simp only [String.reduceToList]
  rfl

theorem depthChange_verb (n : Nat) : depthChange (indented n d.verbContent) = 1 := by
  obtain ⟨o, h⟩ := d.scan_verb n
  exact depthChange_of_scan_eq_singleton h

theorem depthChange_client (n : Nat) : depthChange (indented n d.clientContent) = 0 :=
  depthChange_of_scan_eq_nil (d.scan_client n)

theorem depthChange_call (n : Nat) : depthChange (indented n d.callContent) = 0 :=
  depthChange_of_scan_eq_nil (d.scan_call n)

end Declaration

end Keywords

/-! ### Braces -/

/-- The net number of braces that a line opens. -/
def braces (t : Text) : Int := (Line.braceChange t).1

theorem braces_append (s t : Text) : braces (s ++ t) = braces s + braces t := by
  simp only [braces, Line.braceChange, List.count_append]
  omega

theorem braces_of_not_mem {t : Text} (hopen : '\x7b' ∉ t) (hclose : '\x7d' ∉ t) : braces t = 0 := by
  simp only [braces, Line.braceChange, List.count_eq_zero_of_not_mem hopen, List.count_eq_zero_of_not_mem hclose]
  rfl

theorem braces_indented (n : Nat) (t : Text) : braces (indented n t) = braces t := by
  have hspaces : ∀ c, c ≠ ' ' → c ∉ List.replicate n ' ' := fun c hc hmem => hc (List.eq_of_mem_replicate hmem)
  rw [indented, braces_append, braces_of_not_mem (hspaces _ (by decide)) (hspaces _ (by decide)), Int.zero_add]

theorem Phrase.braces_text (p : Phrase) : braces p.text = 0 :=
  braces_of_not_mem (p.not_mem rfl) (p.not_mem rfl)

theorem Header.map_braces (h : Header) : h.lines.map braces = [1, 0, -1] := by
  unfold lines nameContent descriptionContent
  simp only [List.map_cons, List.map_nil, braces_indented, braces_append, Phrase.braces_text]
  rfl

theorem Declaration.braces_title (d : Declaration) (n : Nat) : braces (indented n d.titleContent) = 1 := by
  unfold titleContent
  simp only [braces_indented, braces_append, Phrase.braces_text]
  rfl

end EndpointAtlas.Canonical
