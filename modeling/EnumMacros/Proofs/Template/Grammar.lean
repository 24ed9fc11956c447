import EnumMacros.Proofs.Identifier.Correspondence
import EnumMacros.Style
import EnumMacros.Template.Render

/-! What is a template. A text reads as one exactly when it is made of references and of characters
that are no braces, and then its parts are the only ones that write it: reading and writing are
inverse to each other, `parse_inverts_sourceOf`. Looking for the references first and for braces
between them afterwards comes to the same, `parse_eq_partsBetween`. -/

namespace EnumMacros

namespace Identifier

/-- A letter or an underscore, and then letters, digits, and underscores. -/
def IsIdentifier (name : String) : Prop :=
  ∃ first rest, name.toList = first :: rest ∧ (first.isAlpha ∨ first = '_') ∧
    ∀ c ∈ rest, c.isAlphanum ∨ c = '_'

theorem isWordChar_iff {c : Char} : isWordChar c = true ↔ c.isAlphanum = true ∨ c = '_' := by
  rw [isWordChar, Option.isSome_iff_exists, isAlphanum_iff]
  simp only [digit?_eq_some_iff]

theorem isWordStart_iff {c : Char} : isWordStart c = true ↔ c.isAlpha = true ∨ c = '_' := by
  have underscore : symbolOf leads = '_' := by decide
  have wide : leads < base := by decide
  rw [isWordStart, Option.any_eq_true, isAlpha_iff]
  simp only [digit?_eq_some_iff, decide_eq_true_eq]
  constructor
  · rintro ⟨d, ⟨-, rfl⟩, le⟩
    rcases Nat.lt_or_eq_of_le le with lt | rfl
    · exact .inl ⟨d, lt, rfl⟩
    · exact .inr underscore
  · rintro (⟨d, lt, rfl⟩ | rfl)
    · exact ⟨d, ⟨lt.trans wide, rfl⟩, lt.le⟩
    · exact ⟨leads, ⟨wide, underscore⟩, le_refl leads⟩

theorem isIdentifier_iff {name : String} :
    IsIdentifier name ↔ Style.isIdentifier name.toList = true := by
  rw [IsIdentifier]
  cases name.toList with
  | nil => simp [Style.isIdentifier]
  | cons first rest =>
    simp only [Style.isIdentifier, Bool.and_eq_true, List.all_eq_true, isWordStart_iff,
      isWordChar_iff]
    constructor
    · rintro ⟨_, _, same, start, others⟩
      obtain ⟨rfl, rfl⟩ := List.cons.inj same
      exact ⟨start, others⟩
    · rintro ⟨start, others⟩
      exact ⟨first, rest, rfl, start, others⟩

end Identifier

open Identifier (IsIdentifier isWordStart isWordChar isIdentifier_iff)

/-- The character stands for itself in a template: it is no brace. -/
def IsPlainChar (c : Char) : Prop := c ≠ '\x7b' ∧ c ≠ '\x7d'

namespace Part

def IsLiteral : Part → Prop
  | literal _ => True
  | reference _ => False

/-- The part has the form that a reader gives it: a literal has some characters and no brace among
them, and a reference has an identifier for its name. -/
def IsRegular : Part → Prop
  | literal text => text ≠ "" ∧ ∀ c ∈ text.toList, IsPlainChar c
  | reference name => IsIdentifier name

end Part

namespace Template

/-- The parts of a template: there are never two literals side by side. -/
structure AreParts (parts : List Part) : Prop where
  regular : ∀ p ∈ parts, p.IsRegular
  apart : parts.IsChain fun p q => ¬(p.IsLiteral ∧ q.IsLiteral)

/-- The texts that are templates. -/
inductive IsTemplate : List Char → Prop
  | nil : IsTemplate []
  | plain {c : Char} {cs : List Char} : IsPlainChar c → IsTemplate cs → IsTemplate (c :: cs)
  | reference {name : String} {cs : List Char} :
      IsIdentifier name → IsTemplate cs → IsTemplate ('\x7b' :: (name.toList ++ '\x7d' :: cs))

/-- The text that the parts are written as. -/
def sourceOf (parts : List Part) : String := String.join (parts.map Part.source)

/-- The characters that the parts are written with. -/
def written (parts : List Part) : List Char := parts.flatMap fun p => p.source.toList

theorem toList_sourceOf (parts : List Part) : (sourceOf parts).toList = written parts := by
  rw [sourceOf, String.toList_join, List.flatMap_map, written]

theorem written_literal (text : String) (parts : List Part) :
    written (.literal text :: parts) = text.toList ++ written parts := rfl

theorem written_reference (name : String) (parts : List Part) :
    written (.reference name :: parts) =
      '\x7b' :: (name.toList ++ '\x7d' :: written parts) := by
  simp [written, Part.source, Fault.bracedName]

variable {parts : List Part}

theorem AreParts.tail {p : Part} (h : AreParts (p :: parts)) : AreParts parts :=
  ⟨fun q member => h.regular q (List.mem_cons_of_mem p member), h.apart.tail⟩

theorem AreParts.cons_reference {name : String} (named : IsIdentifier name) (h : AreParts parts) :
    AreParts (.reference name :: parts) := by
  refine ⟨List.forall_mem_cons.2 ⟨named, h.regular⟩, List.isChain_cons.2 ⟨fun q _ => ?_, h.apart⟩⟩
  exact fun both => both.1

theorem isTemplate_plain {text cs : List Char} (plain : ∀ c ∈ text, IsPlainChar c)
    (rest : IsTemplate cs) : IsTemplate (text ++ cs) := by
  induction text with
  | nil => exact rest
  | cons c text ih =>
    rw [List.forall_mem_cons] at plain
    exact .plain plain.1 (ih plain.2)

theorem AreParts.isTemplate (h : AreParts parts) : IsTemplate (written parts) := by
  induction parts with
  | nil => exact .nil
  | cons p parts ih =>
    have regular := h.regular p List.mem_cons_self
    cases p with
    | literal text =>
      rw [written_literal]
      exact isTemplate_plain regular.2 (ih h.tail)
    | reference name =>
      rw [written_reference]
      exact .reference regular (ih h.tail)

/-! ### Reading what is written -/

theorem partsFrom_open (read cs : List Char) :
    partsFrom (.literal read) ('\x7b' :: cs) =
      (partsFrom (.reference []) cs).map (literalParts read ++ ·) := by
  rw [partsFrom, if_pos rfl]

theorem partsFrom_plain {text : List Char} (plain : ∀ c ∈ text, IsPlainChar c)
    (read cs : List Char) :
    partsFrom (.literal read) (text ++ cs) = partsFrom (.literal (text.reverse ++ read)) cs := by
  induction text generalizing read with
  | nil => rfl
  | cons c text ih =>
    obtain ⟨⟨opens, closes⟩, others⟩ := List.forall_mem_cons.1 plain
    rw [List.cons_append, partsFrom, if_neg opens, if_neg closes, ih others, List.reverse_cons,
      List.append_assoc, List.singleton_append]

theorem ne_close_of_isWordChar {c : Char} (h : isWordChar c = true) : c ≠ '\x7d' := by
  rintro rfl
  exact absurd h (by decide)

theorem isWordChar_of_isWordStart {c : Char} (h : isWordStart c = true) : isWordChar c = true :=
  Option.isSome_of_any h

/-- The name of a reference goes on as far as there are word characters. -/
theorem partsFrom_word {text : List Char} (word : ∀ c ∈ text, isWordChar c = true)
    {read : List Char} (begun : read ≠ []) (cs : List Char) :
    partsFrom (.reference read) (text ++ cs) =
      partsFrom (.reference (text.reverse ++ read)) cs := by
  induction text generalizing read with
  | nil => rfl
  | cons c text ih =>
    rw [List.forall_mem_cons] at word
    have more : extendsName read c = true := by
      rw [extendsName, if_neg (by simpa using begun)]
      exact word.1
    rw [List.cons_append, partsFrom, if_neg (ne_close_of_isWordChar word.1), if_pos more,
      ih word.2 (List.cons_ne_nil c read), List.reverse_cons, List.append_assoc,
      List.singleton_append]

theorem partsFrom_reference {name : String} (named : IsIdentifier name) (cs : List Char) :
    partsFrom (.reference []) (name.toList ++ '\x7d' :: cs) =
      (partsFrom (.literal []) cs).map (.reference name :: ·) := by
  rw [isIdentifier_iff] at named
  cases spelled : name.toList with
  | nil => simp [spelled, Style.isIdentifier] at named
  | cons first rest =>
    rw [spelled, Style.isIdentifier, Bool.and_eq_true, List.all_eq_true] at named
    have notClosed := ne_close_of_isWordChar (isWordChar_of_isWordStart named.1)
    have begun : extendsName [] first = true := named.1
    have back : String.ofList (rest.reverse ++ [first]).reverse = name := by
      rw [List.reverse_append, List.reverse_reverse, List.reverse_singleton, List.singleton_append,
        ← spelled, String.ofList_toList]
    rw [List.cons_append, partsFrom, if_neg notClosed, if_pos begun,
      partsFrom_word named.2 (List.cons_ne_nil first []), partsFrom, if_pos rfl, if_neg (by simp),
      back]

/-- Parts are read back, after a literal that is still open when none of them goes on with it. -/
theorem AreParts.partsFrom_written (h : AreParts parts) {read : List Char}
    (closed : read = [] ∨ ∀ p ∈ parts.head?, ¬p.IsLiteral) :
    partsFrom (.literal read) (written parts) = some (literalParts read ++ parts) := by
  induction parts generalizing read with
  | nil => rw [List.append_nil]; rfl
  | cons p parts ih =>
    have regular := h.regular p List.mem_cons_self
    cases p with
    | literal text =>
      obtain rfl : read = [] := closed.resolve_right fun other => other _ rfl trivial
      have rest : ∀ p ∈ parts.head?, ¬p.IsLiteral := fun p next both =>
        (List.isChain_cons.1 h.apart).1 p next ⟨trivial, both⟩
      have filled : literalParts text.toList.reverse = [.literal text] := by
        rw [literalParts, if_neg (by simpa using regular.1), List.reverse_reverse,
          String.ofList_toList]
      rw [written_literal, partsFrom_plain regular.2, List.append_nil, ih h.tail (.inr rest),
        filled]
      rfl
    | reference name =>
      rw [written_reference, partsFrom_open, partsFrom_reference regular, ih h.tail (.inl rfl)]
      rfl

/-! ### Writing what is read -/

/-- What a reader may have read where it stands. -/
def Cursor.Fits : Cursor → Prop
  | .literal read => ∀ c ∈ read, IsPlainChar c
  | .reference read => read = [] ∨ Style.isIdentifier read.reverse = true

/-- The characters from which the parts to come are read, as far as they have been read. -/
def Cursor.behind : Cursor → List Char
  | .literal read => read.reverse
  | .reference read => '\x7b' :: read.reverse

/-- Parts that are read from some text, the first of them a reference when one has been begun. -/
structure Reads (cursor : Cursor) (cs : List Char) (parts : List Part) : Prop where
  areParts : AreParts parts
  written : written parts = cursor.behind ++ cs
  begun : ∀ read, cursor = .reference read → ∃ name rest, parts = .reference name :: rest

theorem isIdentifier_of_extendsName {read : List Char} {c : Char}
    (fits : Cursor.Fits (.reference read)) (more : extendsName read c = true) :
    Style.isIdentifier (c :: read).reverse = true := by
  rw [List.reverse_cons]
  cases reversed : read.reverse with
  | nil =>
    rw [extendsName, if_pos (by simpa using reversed)] at more
    simpa [Style.isIdentifier] using more
  | cons first rest =>
    have begun : read ≠ [] := by
      rintro rfl
      exact absurd reversed (by simp)
    have known := fits.resolve_left begun
    rw [extendsName, if_neg (by simpa using begun)] at more
    rw [reversed, Style.isIdentifier, Bool.and_eq_true] at known
    rw [List.cons_append, Style.isIdentifier, List.all_append, known.1, known.2]
    simpa using more

theorem written_literalParts (read : List Char) (parts : List Part) :
    written (literalParts read ++ parts) = read.reverse ++ written parts := by
  cases read with
  | nil => rfl
  | cons c read =>
    rw [literalParts, if_neg (by simp), List.singleton_append, written_literal,
      String.toList_ofList]

theorem areParts_literalParts {read : List Char} (plain : ∀ c ∈ read, IsPlainChar c)
    (h : AreParts parts) (closed : ∀ p ∈ parts.head?, ¬p.IsLiteral) :
    AreParts (literalParts read ++ parts) := by
  cases read with
  | nil => exact h
  | cons c read =>
    have regular : (Part.literal (String.ofList (c :: read).reverse)).IsRegular :=
      ⟨by simp, fun d member => plain d (by rwa [String.toList_ofList, List.mem_reverse] at member)⟩
    rw [literalParts, if_neg (by simp), List.singleton_append]
    refine ⟨List.forall_mem_cons.2 ⟨regular, h.regular⟩, List.isChain_cons.2 ⟨?_, h.apart⟩⟩
    exact fun p next both => closed p next both.2

/-- Reading keeps all that is read: by induction on the text, with what stands behind the cursor. -/
theorem reads_partsFrom {cursor : Cursor} {cs : List Char} (fits : cursor.Fits)
    (h : partsFrom cursor cs = some parts) : Reads cursor cs parts := by
  induction cs generalizing cursor parts with
  | nil =>
    cases cursor with
    | reference read => exact absurd h (by simp [partsFrom])
    | literal read =>
      obtain rfl := Option.some.inj h
      rw [← List.append_nil (literalParts read)]
      refine ⟨areParts_literalParts fits ⟨by simp, .nil⟩ (by simp), ?_, by simp⟩
      rw [written_literalParts]
      rfl
  | cons c cs ih =>
    cases cursor with
    | literal read =>
      rw [partsFrom] at h
      split_ifs at h with opens closes
      · subst opens
        obtain ⟨rest, found, rfl⟩ := Option.map_eq_some_iff.1 h
        have blank : (Cursor.reference []).Fits := .inl rfl
        obtain ⟨areParts, text, begun⟩ := ih blank found
        obtain ⟨name, others, rfl⟩ := begun [] rfl
        refine ⟨areParts_literalParts fits areParts ?_, ?_, by simp⟩
        · rintro p ⟨⟩ literal
          exact literal
        · rw [written_literalParts, text]
          rfl
      · have plain : (Cursor.literal (c :: read)).Fits :=
          List.forall_mem_cons.2 ⟨⟨opens, closes⟩, fits⟩
        have more := ih plain h
        refine ⟨more.areParts, ?_, by simp⟩
        rw [more.written]
        simp [Cursor.behind]
    | reference read =>
      rw [partsFrom] at h
      split_ifs at h with closes empty more
      · subst closes
        obtain ⟨rest, found, rfl⟩ := Option.map_eq_some_iff.1 h
        have blank : (Cursor.literal []).Fits := by simp [Cursor.Fits]
        obtain ⟨areParts, text, -⟩ := ih blank found
        have named : IsIdentifier (String.ofList read.reverse) := by
          rw [isIdentifier_iff, String.toList_ofList]
          exact fits.resolve_left (by simpa using empty)
        refine ⟨areParts.cons_reference named, ?_, fun _ _ => ⟨_, _, rfl⟩⟩
        rw [written_reference, text, String.toList_ofList]
        rfl
      · have extended : (Cursor.reference (c :: read)).Fits :=
          .inr (isIdentifier_of_extendsName fits more)
        have further := ih extended h
        refine ⟨further.areParts, ?_, fun _ _ => further.begun _ rfl⟩
        rw [further.written]
        simp [Cursor.behind]

/-! ### References from the left -/

/-- The name of the reference that a text starts with, and the text after it. -/
def leading? (cs : List Char) : Option (String × List Char) :=
  let name := cs.tail.takeWhile isWordChar
  let rest := cs.tail.dropWhile isWordChar
  if cs.head? = some '\x7b' ∧ Style.isIdentifier name = true ∧ rest.head? = some '\x7d' then
    some (String.ofList name, rest.tail)
  else none

theorem word_of_isIdentifier {cs : List Char} (h : Style.isIdentifier cs = true) :
    ∀ c ∈ cs, isWordChar c = true := by
  cases cs with
  | nil => exact absurd h (by simp [Style.isIdentifier])
  | cons c cs =>
    rw [Style.isIdentifier, Bool.and_eq_true, List.all_eq_true] at h
    exact List.forall_mem_cons.2 ⟨isWordChar_of_isWordStart h.1, h.2⟩

theorem leading?_eq_some_iff {cs rest : List Char} {name : String} :
    leading? cs = some (name, rest) ↔
      IsIdentifier name ∧ cs = '\x7b' :: (name.toList ++ '\x7d' :: rest) := by
  rw [isIdentifier_iff]
  constructor
  · intro found
    rw [leading?, Option.ite_none_right_eq_some, Option.some.injEq, Prod.mk.injEq] at found
    obtain ⟨⟨opens, named, closes⟩, rfl, rfl⟩ := found
    obtain ⟨cs, rfl⟩ := List.head?_eq_some_iff.1 opens
    obtain ⟨rest, closed⟩ := List.head?_eq_some_iff.1 closes
    rw [List.tail_cons] at named closed ⊢
    rw [String.toList_ofList, closed, List.tail_cons, ← closed, List.takeWhile_append_dropWhile]
    exact ⟨named, rfl⟩
  · rintro ⟨named, rfl⟩
    have word := word_of_isIdentifier named
    have closed : isWordChar '\x7d' = false := by decide
    have taken : (name.toList ++ '\x7d' :: rest).takeWhile isWordChar = name.toList := by
      rw [List.takeWhile_append_of_pos word, List.takeWhile_cons_of_neg (by simp [closed]),
        List.append_nil]
    have dropped : (name.toList ++ '\x7d' :: rest).dropWhile isWordChar = '\x7d' :: rest := by
      rw [List.dropWhile_append_of_pos word, List.dropWhile_cons_of_neg (by simp [closed])]
    rw [leading?, List.tail_cons, taken, dropped, if_pos ⟨rfl, named, rfl⟩, String.ofList_toList]
    rfl

def isBrace (c : Char) : Bool := c = '\x7b' ∨ c = '\x7d'

/-- The parts at and between the references that are found from the left, each after the one before
it. Braces between them are refused. The characters since the last reference are kept with the last
one first. -/
def partsBetween (gap cs : List Char) : Option (List Part) :=
  match found : leading? cs with
  | some (name, rest) =>
    if gap.any isBrace then none
    else (partsBetween [] rest).map (literalParts gap ++ .reference name :: ·)
  | none =>
    match cs with
    | [] => if gap.any isBrace then none else some (literalParts gap)
    | c :: cs => partsBetween (c :: gap) cs
termination_by cs.length
decreasing_by
  · obtain ⟨-, rfl⟩ := leading?_eq_some_iff.1 found
    simp
    omega
  · simp

/-- A reference that is begun where no text of one stands cannot be read. -/
theorem partsFrom_of_leading?_eq_none {cs : List Char} (absent : leading? ('\x7b' :: cs) = none) :
    partsFrom (.reference []) cs = none := by
  by_contra read
  obtain ⟨parts, found⟩ := Option.ne_none_iff_exists'.1 read
  have blank : (Cursor.reference []).Fits := .inl rfl
  have reads := reads_partsFrom blank found
  obtain ⟨name, others, rfl⟩ := reads.begun [] rfl
  have named : IsIdentifier name := reads.areParts.regular _ List.mem_cons_self
  have text := reads.written
  rw [written_reference] at text
  have present := leading?_eq_some_iff.2 ⟨named, text.symm⟩
  exact absurd (absent.symm.trans present) (by simp)

/-- Reading character by character comes to the same as looking for references first and for braces
between them afterwards. -/
theorem partsBetween_eq (gap cs : List Char) :
    partsBetween gap cs = if gap.any isBrace then none else partsFrom (.literal gap) cs := by
  fun_induction partsBetween gap cs with
  | case1 gap cs name rest found braced => rw [if_pos braced]
  | case2 gap cs name rest found plain ih =>
    obtain ⟨named, rfl⟩ := leading?_eq_some_iff.1 found
    rw [if_neg plain, partsFrom_open, partsFrom_reference named, ih, Option.map_map]
    rfl
  | case3 gap found braced => rw [if_pos braced]
  | case4 gap found plain => rw [if_neg plain]; rfl
  | case5 gap c cs absent ih =>
    rw [ih, List.any_cons]
    by_cases braced : gap.any isBrace = true
    · rw [if_pos braced, braced, Bool.or_true, if_pos rfl]
    rw [if_neg braced, eq_false_of_ne_true braced, Bool.or_false]
    by_cases opens : c = '\x7b'
    · subst opens
      rw [partsFrom_open, partsFrom_of_leading?_eq_none absent, if_pos (by decide)]
      rfl
    by_cases closes : c = '\x7d'
    · rw [partsFrom, if_neg opens, if_pos closes, if_pos (by simp [isBrace, closes])]
    · rw [partsFrom, if_neg opens, if_neg closes, if_neg (by simp [isBrace, opens, closes])]

/-- What a text reads as, said with the references in it. -/
theorem parse_eq_partsBetween (source : String) :
    parse source = match partsBetween [] source.toList with
      | some parts => .ok { source, parts }
      | none => .error (.strayBrace source braceNote) := by
  rw [partsBetween_eq]
  rfl

/-! ### Templates -/

theorem IsTemplate.exists_partsFrom {cs : List Char} (h : IsTemplate cs) (read : List Char) :
    ∃ parts, partsFrom (.literal read) cs = some parts := by
  induction h generalizing read with
  | nil => exact ⟨_, rfl⟩
  | @plain c cs plain _ ih =>
    rw [partsFrom, if_neg plain.1, if_neg plain.2]
    exact ih (c :: read)
  | reference named _ ih =>
    obtain ⟨parts, found⟩ := ih []
    rw [partsFrom_open, partsFrom_reference named, found]
    exact ⟨_, rfl⟩

theorem parse_eq_ok {source : String} {t : Template} (h : parse source = .ok t) :
    t.source = source ∧ AreParts t.parts ∧ sourceOf t.parts = source := by
  rw [parse] at h
  split at h
  · next parts found =>
    obtain rfl := Except.ok.inj h
    have reads := reads_partsFrom (by simp [Cursor.Fits]) found
    refine ⟨rfl, reads.areParts, ?_⟩
    rw [← String.toList_inj, toList_sourceOf, reads.written]
    rfl
  · exact absurd h (by simp)

theorem exists_parse_iff {source : String} :
    (∃ t, parse source = .ok t) ↔ IsTemplate source.toList := by
  constructor
  · rintro ⟨t, accepted⟩
    obtain ⟨-, areParts, written⟩ := parse_eq_ok accepted
    rw [← written, toList_sourceOf]
    exact areParts.isTemplate
  · intro template
    obtain ⟨parts, found⟩ := template.exists_partsFrom []
    exact ⟨⟨source, parts⟩, by rw [parse, found]⟩

theorem parse_sourceOf (h : AreParts parts) :
    parse (sourceOf parts) = .ok ⟨sourceOf parts, parts⟩ := by
  rw [parse, toList_sourceOf, h.partsFrom_written (.inl rfl)]
  rfl

/-- Without values every part stands for itself. -/
theorem render_nil (t : Template) : t.render [] = sourceOf t.parts := by
  rw [render, sourceOf]
  refine congrArg String.join (List.map_congr_left fun p _ => ?_)
  cases p with
  | literal text => rfl
  | reference name => rfl

/-- Reading and writing templates are inverse to each other. A text is read when it is made of
references and of characters that are no braces, and is refused for a stray brace otherwise. What is
read is written as the same text, and stands for it as long as no values are given; and parts that a
reader could have made are read back from what is written. -/
theorem parse_inverts_sourceOf :
    (∀ source, (∃ t, parse source = .ok t) ↔ IsTemplate source.toList) ∧
      (∀ source, ¬IsTemplate source.toList → ∃ fault, parse source = .error fault ∧
        fault = .strayBrace source braceNote ∧ fault.code = "E0006") ∧
      (∀ source t, parse source = .ok t →
        t.source = source ∧ AreParts t.parts ∧ sourceOf t.parts = source ∧ t.render [] = source) ∧
      ∀ parts, AreParts parts → parse (sourceOf parts) = .ok ⟨sourceOf parts, parts⟩ := by
  refine ⟨fun source => exists_parse_iff, ?refused, ?read, fun parts => parse_sourceOf⟩
  case refused =>
    intro source other
    refine ⟨_, ?_, rfl, rfl⟩
    rw [parse]
    split
    · next parts found => exact absurd (exists_parse_iff.1 ⟨_, by rw [parse, found]⟩) other
    · rfl
  case read =>
    intro source t accepted
    obtain ⟨kept, areParts, written⟩ := parse_eq_ok accepted
    refine ⟨kept, areParts, written, ?_⟩
    rw [render_nil, written]

example : (parse "\x7b\x7bn\x7d").toOption = none ∧ (parse "\x7b1n\x7d").toOption = none ∧
    (parse "a\x7b_1\x7d\x7bn\x7db").toOption.map Template.parts =
      some [.literal "a", .reference "_1", .reference "n", .literal "b"] := by decide

end Template

end EnumMacros
