import EnumMacros.Proofs.Identifier.Scoping
import EnumMacros.Proofs.Text.Decimal
import EnumMacros.Style

/-! The names of the macros in an accepted style. A template of names refers to nothing but the
size, so what is found out about the name of one size, that it is made of word characters, holds for
every size; and if the template does refer to the size, macros of different sizes differ in name. -/

namespace EnumMacros

/-- The characters that a part of a name template stands for where the size is written with the
given digits. -/
def Part.spelled (digits : List Char) : Part → List Char
  | .literal text => text.toList
  | .reference _ => digits

/-- The size is written out once for each reference. -/
theorem length_flatMap_spelled (parts : List Part) (digits : List Char) :
    (parts.flatMap (Part.spelled digits)).length = (parts.flatMap (Part.spelled [])).length +
      (parts.filterMap Part.name?).length * digits.length := by
  induction parts with
  | nil => simp
  | cons p ps ih =>
    rw [List.flatMap_cons, List.flatMap_cons, List.length_append, List.length_append, ih]
    cases p with
    | literal text => exact (Nat.add_assoc _ _ _).symm
    | reference name =>
      rw [List.filterMap_cons_some (show (Part.reference name).name? = some name from rfl),
        List.length_cons, Nat.succ_mul]
      simp only [Part.spelled, List.length_nil]
      omega

/-- Digits are read off a name that they are part of. -/
theorem spelled_injective {parts : List Part} {name : String} (member : .reference name ∈ parts)
    {ds es : List Char}
    (same : parts.flatMap (Part.spelled ds) = parts.flatMap (Part.spelled es)) : ds = es := by
  have lengths : ds.length = es.length := by
    have whole := congrArg List.length same
    rw [length_flatMap_spelled parts ds, length_flatMap_spelled parts es] at whole
    have referred : name ∈ parts.filterMap Part.name? := List.mem_filterMap.2 ⟨_, member, rfl⟩
    exact Nat.eq_of_mul_eq_mul_left (List.length_pos_of_mem referred) (Nat.add_left_cancel whole)
  induction parts with
  | nil => exact absurd member List.not_mem_nil
  | cons p ps ih =>
    rw [List.flatMap_cons, List.flatMap_cons] at same
    cases p with
    | literal text =>
      have rest : .reference name ∈ ps := by simpa using member
      exact ih rest (List.append_cancel_left same)
    | reference other => exact (List.append_inj same lengths).1

/-- A part that stands for text of word characters, or for the size. -/
def Part.IsWordlike : Part → Prop
  | .literal text => ∀ c ∈ text.toList, Identifier.isWordChar c = true
  | .reference _ => True

namespace Template

/-- What a template of names has to be: it refers to nothing but the size, and stands for text of
word characters, some of which are there for every size. -/
structure Names (t : Template) : Prop where
  sized : ∀ name ∈ t.references, name = "n"
  wordlike : ∀ p ∈ t.parts, p.IsWordlike
  filled : ∃ p ∈ t.parts, ∀ digits, digits ≠ [] → p.spelled digits ≠ []

theorem toList_render {t : Template} (sized : ∀ name ∈ t.references, name = "n") (n : Nat) :
    (t.render (sizeBinding n)).toList = t.parts.flatMap (Part.spelled (Text.decimal n).toList) := by
  rw [render, String.toList_join, List.flatMap_map]
  apply List.flatMap_congr
  intro p member
  cases p with
  | literal text => rfl
  | reference name =>
    have size : name = "n" := sized name (List.mem_filterMap.2 ⟨_, member, rfl⟩)
    subst size
    rfl

theorem checkTemplate_eq_ok {t : Template} (accepted : Style.checkTemplate t = .ok ()) :
    (∀ name ∈ t.references, name = "n") ∧
      Style.isIdentifier (t.render (sizeBinding 2)).toList = true := by
  obtain ⟨_, references, checked⟩ := bind_eq_ok.1 accepted
  constructor
  · rw [checkReferences] at references
    split at references
    · exact absurd references (by simp)
    · next known =>
      intro name member
      simpa [Style.nameReferences] using List.find?_eq_none.1 known name member
  · by_contra other
    rw [Style.checkName, if_neg other] at checked
    exact absurd checked (by simp)

theorem names_of_checkTemplate {t : Template} (accepted : Style.checkTemplate t = .ok ()) :
    t.Names := by
  obtain ⟨sized, identifier⟩ := checkTemplate_eq_ok accepted
  rw [toList_render sized] at identifier
  have chars : ∀ c ∈ t.parts.flatMap (Part.spelled (Text.decimal 2).toList),
      Identifier.isWordChar c = true := by
    intro c member
    cases spelling : t.parts.flatMap (Part.spelled (Text.decimal 2).toList) with
    | nil => rw [spelling] at member; exact absurd member List.not_mem_nil
    | cons first rest =>
      rw [spelling] at identifier member
      simp only [Style.isIdentifier, Bool.and_eq_true, List.all_eq_true] at identifier
      rcases List.mem_cons.1 member with rfl | member
      · exact Option.isSome_of_any identifier.1
      · exact identifier.2 c member
  refine ⟨sized, fun p member => ?_, ?_⟩
  · cases p with
    | literal text => exact fun c inside => chars c (List.mem_flatMap.2 ⟨_, member, inside⟩)
    | reference name => trivial
  · cases spelling : t.parts.flatMap (Part.spelled (Text.decimal 2).toList) with
    | nil => rw [spelling] at identifier; simp [Style.isIdentifier] at identifier
    | cons first rest =>
      have inside : first ∈ t.parts.flatMap (Part.spelled (Text.decimal 2).toList) := by
        rw [spelling]
        exact List.mem_cons_self
      obtain ⟨p, member, has⟩ := List.mem_flatMap.1 inside
      refine ⟨p, member, fun digits nonempty => ?_⟩
      cases p with
      | literal text => exact List.ne_nil_of_mem has
      | reference name => exact nonempty

variable {t : Template}

theorem Names.isWord_render (h : t.Names) (n : Nat) :
    Identifier.IsWord (t.render (sizeBinding n)) := by
  rw [Identifier.IsWord, toList_render h.sized]
  constructor
  · obtain ⟨p, member, filled⟩ := h.filled
    intro empty
    exact filled _ (Text.toList_decimal_ne_nil n) (List.flatMap_eq_nil_iff.1 empty p member)
  · intro c inside
    obtain ⟨p, member, has⟩ := List.mem_flatMap.1 inside
    have wordlike := h.wordlike p member
    cases p with
    | literal text => exact wordlike c has
    | reference name => exact Text.isWordChar_of_isDigit (Text.isDigit_of_mem_decimal has)

/-- A name opens with the same character for every size, since no digit can open it. -/
theorem head?_spelled {parts : List Part} {ds : List Char} (nonempty : ds ≠ [])
    (digits : ∀ d ∈ ds, d.isDigit = true) {c : Char} (start : Identifier.isWordStart c = true)
    (opens : (parts.flatMap (Part.spelled ds)).head? = some c) (es : List Char) :
    (parts.flatMap (Part.spelled es)).head? = some c := by
  induction parts with
  | nil => exact opens
  | cons p ps ih =>
    rw [List.flatMap_cons] at opens ⊢
    cases p with
    | literal text =>
      rw [Part.spelled] at opens ⊢
      cases chars : text.toList with
      | nil =>
        rw [chars] at opens
        exact ih opens
      | cons first rest =>
        rw [chars] at opens
        exact opens
    | reference name =>
      obtain ⟨d, ds, rfl⟩ := List.exists_cons_of_ne_nil nonempty
      obtain rfl : d = c := Option.some.inj opens
      rw [Text.isWordStart_of_isDigit (digits d List.mem_cons_self)] at start
      exact absurd start Bool.false_ne_true

/-- If a template passes its check, for which its name for one size is tried, then its names for all
sizes pass. -/
theorem checkName_render (accepted : Style.checkTemplate t = .ok ()) (n : Nat) :
    Style.checkName (t.render (sizeBinding n)) = .ok () := by
  obtain ⟨sized, tried⟩ := checkTemplate_eq_ok accepted
  have word := (names_of_checkTemplate accepted).isWord_render n
  obtain ⟨c, start, opens⟩ : ∃ c, Identifier.isWordStart c = true ∧
      (t.render (sizeBinding 2)).toList.head? = some c := by
    cases chars : (t.render (sizeBinding 2)).toList with
    | nil => rw [chars] at tried; exact absurd tried Bool.false_ne_true
    | cons c cs =>
      rw [chars, Style.isIdentifier, Bool.and_eq_true] at tried
      exact ⟨c, tried.1, rfl⟩
  rw [toList_render sized] at opens
  have opens_n : (t.render (sizeBinding n)).toList.head? = some c := by
    rw [toList_render sized]
    exact head?_spelled (Text.toList_decimal_ne_nil 2) (fun d => Text.isDigit_of_mem_decimal) start
      opens _
  obtain ⟨cs, chars⟩ := List.head?_eq_some_iff.1 opens_n
  have others : ∀ d ∈ cs, Identifier.isWordChar d = true := fun d member =>
    word.2 d (chars ▸ List.mem_cons_of_mem c member)
  rw [Style.checkName, chars, Style.isIdentifier, start, List.all_eq_true.2 others]
  rfl

theorem exists_reference (h : "n" ∈ t.references) : .reference "n" ∈ t.parts := by
  obtain ⟨p, member, named⟩ := List.mem_filterMap.1 h
  cases p with
  | literal text => exact absurd named (by simp [Part.name?])
  | reference name =>
    obtain rfl := Option.some.inj named
    exact member

theorem Names.render_injective (h : t.Names) (refers : "n" ∈ t.references) {n m : Nat}
    (same : t.render (sizeBinding n) = t.render (sizeBinding m)) : n = m := by
  have chars := congrArg String.toList same
  rw [toList_render h.sized, toList_render h.sized] at chars
  have digits := spelled_injective (exists_reference refers) chars
  rw [Text.toList_decimal, Text.toList_decimal] at digits
  exact Text.toDigits_injective digits

/-- A name with the size in it has a digit in it. -/
theorem Names.exists_isDigit (h : t.Names) (refers : "n" ∈ t.references) (n : Nat) :
    ∃ c ∈ (t.render (sizeBinding n)).toList, c.isDigit = true := by
  obtain ⟨c, cs, digits⟩ := List.exists_cons_of_ne_nil (Text.toList_decimal_ne_nil n)
  have first : c ∈ (Text.decimal n).toList := by
    rw [digits]
    exact List.mem_cons_self
  refine ⟨c, ?_, Text.isDigit_of_mem_decimal first⟩
  rw [toList_render h.sized]
  exact List.mem_flatMap.2 ⟨_, exists_reference refers, first⟩

/-! ### The length of a name -/

theorem Names.length_render (h : t.Names) (n : Nat) :
    (t.render (sizeBinding n)).toList.length = (t.parts.flatMap (Part.spelled [])).length +
      t.references.length * (Nat.toDigits 10 n).length := by
  rw [toList_render h.sized, length_flatMap_spelled, Text.toList_decimal, references]

/-- For a size one larger, a name takes up at most one byte more for each reference. -/
theorem Names.utf8ByteSize_render_succ_le (h : t.Names) (n : Nat) :
    (t.render (sizeBinding (n + 1))).utf8ByteSize ≤
      (t.render (sizeBinding n)).utf8ByteSize + t.references.length := by
  have digits := Nat.mul_le_mul_left t.references.length (Text.length_toDigits_succ_le n)
  rw [Nat.mul_succ] at digits
  rw [(h.isWord_render (n + 1)).utf8ByteSize, (h.isWord_render n).utf8ByteSize, h.length_render,
    h.length_render]
  omega

/-- Without a reference, the names for all sizes are the same. -/
theorem render_of_references_eq_nil (constant : t.references = []) (values others : Bindings) :
    t.render values = t.render others := by
  rw [render, render]
  refine congrArg String.join (List.map_congr_left fun p member => ?_)
  cases p with
  | literal text => rfl
  | reference name =>
    have referred : name ∈ t.references := List.mem_filterMap.2 ⟨_, member, rfl⟩
    exact absurd (constant ▸ referred) List.not_mem_nil

/-- A name that starts with a letter is longer than the digits in it. -/
theorem Names.length_toDigits_lt (h : t.Names) (refers : t.references ≠ []) {n raw : Nat}
    (same : Identifier.spell raw = t.render (sizeBinding n)) :
    (Nat.toDigits 10 n).length < (Identifier.spell raw).length := by
  have digits : (Nat.toDigits 10 n).length ≤ t.references.length * (Nat.toDigits 10 n).length :=
    Nat.le_mul_of_pos_left _ (List.length_pos_of_ne_nil refers)
  have other : t.parts.flatMap (Part.spelled []) ≠ [] := by
    intro empty
    obtain ⟨lead, tail, small, -, spelled, -⟩ := Identifier.spellChars_eq raw
    have letters : ∀ d < Identifier.leads, (Identifier.symbolOf d).isDigit = false := by
      decide +kernel
    have first : Identifier.symbolOf lead ∈
        t.parts.flatMap (Part.spelled (Text.decimal n).toList) := by
      rw [← toList_render h.sized, ← same, Identifier.toList_spell, spelled]
      exact List.mem_cons_self
    obtain ⟨p, member, inside⟩ := List.mem_flatMap.1 first
    cases p with
    | literal text =>
      have blank : text.toList = [] := List.flatMap_eq_nil_iff.1 empty _ member
      rw [Part.spelled, blank] at inside
      exact absurd inside List.not_mem_nil
    | reference name =>
      exact absurd (Text.isDigit_of_mem_decimal inside) (by simp [letters lead small])
  have positive := List.length_pos_of_ne_nil other
  rw [← String.length_toList, same, h.length_render]
  omega

end Template

namespace Style

/-- The style comes from options that were not refused: templates of names, an assertion, and
whether keywords are avoided. -/
def IsAccepted (s : Style) : Prop :=
  ∃ distinctName enumName extent message named assertion avoidKeywords,
    Style.named distinctName enumName = .ok named ∧
      Assertion.make extent message = .ok assertion ∧
      s = { named with assertion, avoidKeywords }

theorem isAccepted_standard : standard.IsAccepted :=
  ⟨_, _, _, _, _, _, false, named_default, Assertion.make_once, rfl⟩

variable {s : Style}

theorem checkTemplate_of_named {distinctName enumName : String}
    (accepted : named distinctName enumName = .ok s) (family : Family) :
    checkTemplate (s.nameTemplate family) = .ok () := by
  obtain ⟨d, -, accepted⟩ := bind_eq_ok.1 accepted
  obtain ⟨e, -, accepted⟩ := bind_eq_ok.1 accepted
  obtain ⟨_, first, accepted⟩ := bind_eq_ok.1 accepted
  obtain ⟨_, second, accepted⟩ := bind_eq_ok.1 accepted
  obtain rfl := Except.ok.inj accepted
  cases family with
  | distinct => exact first
  | enum => exact second

theorem IsAccepted.names (h : s.IsAccepted) (family : Family) : (s.nameTemplate family).Names := by
  obtain ⟨distinctName, enumName, -, -, named, -, -, accepted, -, rfl⟩ := h
  have checked := Template.names_of_checkTemplate (checkTemplate_of_named accepted family)
  cases family <;> exact checked

theorem IsAccepted.isWord_macroName (h : s.IsAccepted) (family : Family) (n : Nat) :
    Identifier.IsWord (s.macroName family n) :=
  (h.names family).isWord_render n

theorem IsAccepted.macroName_injective (h : s.IsAccepted) (family : Family)
    (refers : "n" ∈ (s.nameTemplate family).references) {n m : Nat}
    (same : s.macroName family n = s.macroName family m) : n = m :=
  (h.names family).render_injective refers same

end Style

end EnumMacros
