import EnumMacros.Proofs.Text.Reading
import EnumMacros.Template.Render

/-! What the string expression of a template says. Its text always reads as a string expression,
and it gives the parts of the template in order, each as what it stands for, exactly where the
written forms of neighbouring parts stay apart: the parts of a literal are escaped one by one, so
an escape at the end of one can take on digits at the start of the next. -/

namespace EnumMacros.Template

open Identifier (IsWord)
open Text.CLiteral (Symbol Piece)

/-- What a part of a message stands for: the units of its text or of the value it refers to, the
argument of a parameter in quotes, or, of a reference without a value, the units of its source. -/
def partSymbols (values : Bindings) : Part → List Symbol
  | .literal text => (Text.units text.toList).map .unit
  | .reference name =>
    match values.lookup name with
    | some (.text content) => (Text.units content.toList).map .unit
    | some (.parameter parameter) => [.quoted parameter]
    | none => (Text.units (Fault.bracedName name).toList).map .unit

/-- What a message stands for: its parts in order. -/
def symbols (t : Template) (values : Bindings) : List Symbol := t.parts.flatMap (partSymbols values)

theorem symbols_piece (values : Bindings) (part : Part) :
    (piece values part).symbols = partSymbols values part := by
  cases part with
  | literal text => rfl
  | reference name =>
    rw [piece, partSymbols]
    cases values.lookup name with
    | none => rfl
    | some value => cases value <;> rfl

/-- The arguments that a message quotes are parameters among its values. -/
theorem lookup_of_piece_eq_argument {values : Bindings} {part : Part} {name : String}
    (h : piece values part = .argument name) :
    ∃ reference, values.lookup reference = some (.parameter name) := by
  cases part with
  | literal text => exact absurd h (by simp [piece])
  | reference reference =>
    rw [piece] at h
    cases found : values.lookup reference with
    | none => exact absurd h (by simp [found])
    | some value =>
      rw [found] at h
      cases value with
      | text content => exact absurd h (by simp [Value.piece])
      | parameter other =>
        obtain rfl : other = name := Piece.argument.inj h
        exact ⟨reference, found⟩

theorem toList_stringExpression (t : Template) (values : Bindings) :
    (t.stringExpression values).toList = Text.CLiteral.written (t.stringTokens values) := by
  rw [stringExpression, String.toList_join, List.flatMap_map]
  rfl

/-- The string expression of a template always reads, and it never says more than the template. It
says what the template says exactly where no escape at the end of a part goes on with the part
after it. -/
theorem read_stringExpression (t : Template) (values : Bindings)
    (words : ∀ reference name, values.lookup reference = some (.parameter name) → IsWord name) :
    (∃ found, Text.CLiteral.read (t.stringExpression values) = some found ∧
      found.length ≤ (t.symbols values).length) ∧
    (Text.CLiteral.read (t.stringExpression values) = some (t.symbols values) ↔
      Piece.Apart (t.parts.map (piece values))) := by
  have arguments : ∀ name, .argument name ∈ t.parts.map (piece values) → IsWord name := by
    intro name member
    obtain ⟨part, -, same⟩ := List.mem_map.1 member
    obtain ⟨reference, found⟩ := lookup_of_piece_eq_argument same
    exact words reference name found
  have meaning : (t.parts.map (piece values)).flatMap Piece.symbols = t.symbols values := by
    rw [List.flatMap_map, symbols]
    exact congrArg (t.parts.flatMap ·) (funext (symbols_piece values))
  have gives := Text.CLiteral.gives_expression arguments
  rw [meaning] at gives
  rw [Text.CLiteral.read, toList_stringExpression]
  exact ⟨gives.exists_readFrom, gives.readFrom_eq_iff.trans not_not⟩

/-- A quoted argument keeps the parts around it apart. -/
theorem read_stringExpression_of_parameter :
    Text.CLiteral.read (stringExpression ⟨"\x01\x7bp\x7d2", [.literal "\x01", .reference "p",
      .literal "2"]⟩ [("p", .parameter "a")]) = some [.unit 1, .quoted "a", .unit 50] := by
  refine ((read_stringExpression _ _ ?_).2.2 (by decide +kernel)).trans rfl
  intro reference name found
  rw [List.lookup_cons] at found
  split at found
  · obtain rfl : "a" = name := Value.parameter.inj (Option.some.inj found)
    exact ⟨by decide, List.all_eq_true.1 (by decide)⟩
  · exact absurd found (by simp)

/-- A control character before a size takes the size into its escape: `"\12"` is a line feed. -/
theorem read_stringExpression_control_size :
    ∃ t, parse "\x01\x7bn\x7d" = .ok t ∧
      Text.CLiteral.read (t.stringExpression [("n", .text "2")]) = some [.unit 10] ∧
      t.symbols [("n", .text "2")] = [.unit 1, .unit 50] :=
  ⟨⟨"\x01\x7bn\x7d", [.literal "\x01", .reference "n"]⟩, by decide +kernel, by decide +kernel,
    by decide +kernel⟩

end EnumMacros.Template
