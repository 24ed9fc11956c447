import EnumMacros.Proofs.Definition.Composing
import EnumMacros.Proofs.Definition.Dividing
import EnumMacros.Proofs.Preprocessor.Calls

/-! Definitions read back from their lines. A line bears the name of its macro, its body reads as
the symbols of its tokens, and the only macros called there are the smaller checks that a check is
divided into, or the check of an enum's size. -/

namespace EnumMacros

open Identifier (IsWord)
open Preprocessor

/-! ### Bodies -/

theorem readable_comparisons (a : Assertion) {names : List String} (h : ∀ x ∈ names, IsWord x) :
    Readable ((Body.comparisons names).tokens a) := by
  apply Readable.separated (isWritten_joint a)
  intro run member
  obtain ⟨p, inside, rfl⟩ := List.mem_map.1 member
  obtain ⟨first, second⟩ := mem_of_mem_pairs inside
  exact readable_pair a (h p.1 first) (h p.2 second)

theorem readable_calls (a : Assertion) {group : List Call}
    (h : ∀ c ∈ group, IsWord c.callee ∧ ∀ x ∈ c.arguments, IsWord x) :
    Readable ((Body.calls group).tokens a) := by
  apply Readable.separated (isWritten_joint a)
  intro run member
  obtain ⟨c, inside, rfl⟩ := List.mem_map.1 member
  exact readable_call (h c inside).1 (h c inside).2

/-- A smaller check has about two thirds of the size, and its arguments are among the names. -/
theorem Style.mem_partCalls {style : Style} {names : List String} {call : Call}
    (h : call ∈ style.partCalls names) :
    ∃ m, call.callee = style.macroName .distinct m ∧ call.arguments.length = m ∧
      (names.length * 2 / 3 ≤ m ∧ m ≤ (2 * names.length + 2) / 3) ∧
      ∀ x ∈ call.arguments, x ∈ names := by
  obtain ⟨⟨q, r⟩, member, rfl⟩ := List.mem_map.1 h
  obtain ⟨bounds, first, second⟩ := length_of_mem_pairs_parts member
  refine ⟨_, rfl, ?_, bounds, fun x inside => ?_⟩
  · rw [List.length_append, Run.length_members first, Run.length_members second]
  · rcases List.mem_append.1 inside with left | right
    · exact List.mem_of_mem_drop (List.mem_of_mem_take left)
    · exact List.mem_of_mem_drop (List.mem_of_mem_take right)

/-- The word that opens an assertion has no digit, which a name with the size in it has. -/
theorem Style.IsAccepted.macroName_ne_assertWord {style : Style} (h : style.IsAccepted)
    (refers : "n" ∈ style.distinctName.references) (m : Nat) :
    style.macroName .distinct m ≠ assertWord := by
  intro same
  obtain ⟨c, member, digit⟩ := (h.names .distinct).exists_isDigit refers m
  rw [show (style.nameTemplate .distinct).render (Template.sizeBinding m) = assertWord from same]
    at member
  have none : (assertWord.toList.any Char.isDigit) = false := by decide
  exact absurd (List.any_eq_true.2 ⟨c, member, digit⟩) (by rw [none]; exact Bool.false_ne_true)

namespace Definition

variable {style : Style} {n : Nat} {d : Definition}

theorem IsCheck.readable (h : d.IsCheck style n) (accepted : style.IsAccepted) :
    Readable (d.body.tokens style.assertion) := by
  have words : ∀ x ∈ d.params, IsWord x := fun x member => (h.params.words x member).1
  rcases h.body with compared | ⟨-, called, -⟩
  · rw [compared]
    exact readable_comparisons _ words
  · rw [called]
    apply readable_calls
    intro call member
    obtain ⟨m, callee, -, -, inside⟩ := Style.mem_partCalls member
    rw [callee]
    exact ⟨accepted.isWord_macroName _ m, fun x among => words x (inside x among)⟩

theorem IsDeclaration.readable {declaration : Declaration}
    (h : d.IsDeclaration style n declaration) (accepted : style.IsAccepted) :
    Readable (d.body.tokens style.assertion) := by
  rw [h.body]
  apply readable_declaration _ h.named h.typed h.enumerators
  intro call member
  rw [h.check] at member
  split_ifs at member with several
  · obtain rfl := Option.some.inj member
    refine ⟨accepted.isWord_macroName _ n, fun x inside => ?_⟩
    obtain ⟨e, among, rfl⟩ := List.mem_map.1 inside
    exact (h.enumerators e among).1
  · exact absurd member (by simp)

/-! ### Calls -/

/-- A check calls checks of about two thirds of its size, with as many arguments as their size. -/
theorem IsCheck.called (h : d.IsCheck style n) {call : Call} (member : call ∈ d.body.called) :
    ∃ m, call.callee = style.macroName .distinct m ∧ call.arguments.length = m ∧
      2 * n / 3 ≤ m ∧ m ≤ (2 * n + 2) / 3 ∧ 2 ≤ m ∧ m < n := by
  rcases h.body with compared | ⟨large, divided, -⟩
  · rw [compared] at member
    exact absurd member List.not_mem_nil
  · rw [divided] at member
    obtain ⟨m, callee, arguments, bounds, -⟩ := Style.mem_partCalls member
    rw [h.length] at bounds
    exact ⟨m, callee, arguments, by omega⟩

/-- An enum macro calls the check of its size on its enumerators. -/
theorem IsDeclaration.called {declaration : Declaration} (h : d.IsDeclaration style n declaration)
    {call : Call} (member : call ∈ d.body.called) :
    2 ≤ n ∧ call.callee = style.macroName .distinct n ∧ call.arguments.length = n := by
  rw [h.body, Body.called, Option.mem_toList, h.check] at member
  split_ifs at member with several
  obtain rfl := Option.some.inj member
  exact ⟨several, rfl, by rw [List.length_map, h.length]⟩

/-- What is called in the text of a body is what the body is made to call. -/
theorem exists_called_of_calls (readable : Readable (d.body.tokens style.assertion)) {name : String}
    (call : Calls (symbols (d.body.text style.assertion)) name) :
    name = assertWord ∨ ∃ call ∈ d.body.called, call.callee = name := by
  rw [Body.text, symbols_textOf readable] at call
  exact (callsOnly_body style.assertion d.body).of_calls call

/-- A check calls nothing but the assertion and checks of about two thirds of its size. -/
theorem IsCheck.calls (h : d.IsCheck style n) (accepted : style.IsAccepted) {name : String}
    (call : Calls (symbols (d.body.text style.assertion)) name) :
    name = assertWord ∨
      ∃ m, name = style.macroName .distinct m ∧
        2 * n / 3 ≤ m ∧ m ≤ (2 * n + 2) / 3 ∧ 2 ≤ m ∧ m < n := by
  apply (exists_called_of_calls (h.readable accepted) call).imp_right
  rintro ⟨c, member, rfl⟩
  obtain ⟨m, callee, -, bounds⟩ := h.called member
  exact ⟨m, callee, bounds⟩

/-- An enum macro calls nothing but the assertion and the check of its size. -/
theorem IsDeclaration.calls {declaration : Declaration} (h : d.IsDeclaration style n declaration)
    (accepted : style.IsAccepted) {name : String}
    (call : Calls (symbols (d.body.text style.assertion)) name) :
    name = assertWord ∨ 2 ≤ n ∧ name = style.macroName .distinct n := by
  apply (exists_called_of_calls (h.readable accepted) call).imp_right
  rintro ⟨c, member, rfl⟩
  obtain ⟨several, callee, -⟩ := h.called member
  exact ⟨several, callee⟩

end Definition

/-! ### Lines -/

/-- The text has no line feed. -/
def IsOneLine (text : String) : Prop := '\n' ∉ text.toList

instance (text : String) : Decidable (IsOneLine text) := inferInstanceAs (Decidable (_ ∉ _))

theorem IsOneLine.append {s t : String} (h : IsOneLine s) (h' : IsOneLine t) :
    IsOneLine (s ++ t) := by
  rw [IsOneLine, String.toList_append, List.mem_append, not_or]
  exact ⟨h, h'⟩

theorem isOneLine_of_isWord {name : String} (h : IsWord name) : IsOneLine name := by
  intro member
  have feed := h.2 _ member
  exact absurd feed (by decide)

/-- A line before its line feed. -/
def Line.written (l : Line) : String :=
  "#define " ++ l.name ++ "(" ++ String.intercalate "," l.params ++ ")" ++ l.body

theorem Line.text_eq (l : Line) : l.text = l.written ++ "\n" := rfl

namespace Style

variable {style : Style} {n : Nat} {line : Line}

/-- A definition bears the name of its macro. -/
theorem Prints.name_eq {family : Family} (h : style.Prints family n line) (small : n < sizeLimit) :
    line.name = style.macroName family n := by
  cases family with
  | distinct =>
    obtain ⟨d, check, rfl⟩ := h.isCheck small
    exact check.name
  | enum =>
    obtain ⟨d, declaration, declares, rfl⟩ := h.isDeclaration small
    exact declares.name

/-- A line is that of a definition that is read back from it, and calls checks of at least two
arguments: fewer than its size in a check, and no more in an enum macro. -/
theorem Prints.exists_definition {family : Family} (h : style.Prints family n line)
    (small : n < sizeLimit) (accepted : style.IsAccepted) :
    ∃ d : Definition, line = d.line style.assertion ∧ d.name = style.macroName family n ∧
      Readable (d.body.tokens style.assertion) ∧
      ∀ call ∈ d.body.called, ∃ m, call.callee = style.macroName .distinct m ∧
        call.arguments.length = m ∧ 2 ≤ m ∧ m ≤ n ∧ (family = .distinct → m < n) := by
  cases family with
  | distinct =>
    obtain ⟨d, check, rfl⟩ := h.isCheck small
    refine ⟨d, rfl, check.name, check.readable accepted, fun call member => ?_⟩
    obtain ⟨m, callee, arguments, -, -, two, less⟩ := check.called member
    exact ⟨m, callee, arguments, two, less.le, fun _ => less⟩
  | enum =>
    obtain ⟨d, declaration, declares, rfl⟩ := h.isDeclaration small
    refine ⟨d, rfl, declares.name, declares.readable accepted, fun call member => ?_⟩
    obtain ⟨several, callee, arguments⟩ := declares.called member
    exact ⟨n, callee, arguments, several, le_refl n, fun other => absurd other (by decide)⟩

theorem Prints.isWord_params {family : Family} (h : style.Prints family n line)
    (small : n < sizeLimit) : ∀ p ∈ line.params, IsWord p := by
  cases family with
  | distinct =>
    obtain ⟨d, check, rfl⟩ := h.isCheck small
    exact fun p member => (check.params.words p member).1
  | enum =>
    obtain ⟨d, declaration, declares, rfl⟩ := h.isDeclaration small
    exact fun p member => declares.isWord member

end Style

end EnumMacros
