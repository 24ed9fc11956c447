import EnumMacros.Proofs.Preprocessor.Expansion
import Mathlib.Algebra.BigOperators.Group.List.Basic
import Mathlib.Algebra.BigOperators.Ring.List
import Mathlib.Algebra.Order.Ring.Int

/-! What a fully expanded check says. Where it is asserted as a whole it has to be a product of
comparisons, and otherwise a run of assertions, each about one comparison; anything else is refused.
A comparison of two arguments is one where their values differ and zero where they do not. -/

namespace EnumMacros.Preprocessor

/-- Whether the symbol is a given character. -/
def Symbol.isMark (c : Char) : Symbol → Bool
  | .mark d => d == c
  | _ => false

/-- Whether the symbol is a string literal once it is written out. -/
def Symbol.isString : Symbol → Bool
  | .literal _ | .quotation _ => true
  | _ => false

/-- The comparison of the arguments at two places. -/
def comparisonSymbols (i j : Nat) : List Symbol :=
  [.mark '(', .mark '(', .argument i, .mark ')', .mark '!', .mark '=', .mark '(', .argument j,
    .mark ')', .mark ')']

/-- The places of the arguments that are compared. -/
def comparisonOf? : List Symbol → Option (Nat × Nat)
  | [.mark '(', .mark '(', .argument i, .mark ')', .mark '!', .mark '=', .mark '(', .argument j,
      .mark ')', .mark ')'] => some (i, j)
  | _ => none

/-- Whether the symbols are the message of an assertion, and its end. -/
def isMessage : List Symbol → Bool
  | [] => false
  | [s, .mark ')'] => s.isString
  | s :: rest => s.isString && isMessage rest

/-- The places of the arguments whose comparison is asserted. -/
def assertionOf? : List Symbol → Option (Nat × Nat)
  | .word name :: .mark '(' :: .mark '(' :: .mark '(' :: .argument i :: .mark ')' :: .mark '!' ::
      .mark '=' :: .mark '(' :: .argument j :: .mark ')' :: .mark ')' :: .mark ',' :: message =>
    if name = assertWord ∧ isMessage message then some (i, j) else none
  | _ => none

/-- The places of the arguments that one check compares. -/
def checkOf? (extent : AssertExtent) : List Symbol → Option (Nat × Nat) :=
  match extent with
  | .once => comparisonOf?
  | .all => assertionOf?

/-- What stands between two checks. -/
def jointMark : AssertExtent → Char
  | .once => '*'
  | .all => ';'

/-- The places of the arguments compared in an expansion, in order; none where some stretch of it is
no check. -/
def checksOf? (extent : AssertExtent) (expansion : List Symbol) : Option (List (Nat × Nat)) :=
  (expansion.splitOnP (Symbol.isMark (jointMark extent))).mapM (checkOf? extent)

/-! ### Values -/

/-- The value of a comparison, where the arguments have the given values. -/
def comparisonValue (values : Nat → Int) (p : Nat × Nat) : Int :=
  if values p.1 ≠ values p.2 then 1 else 0

/-- The value of a product of comparisons. -/
def productValue? (values : Nat → Int) (expansion : List Symbol) : Option Int :=
  (checksOf? .once expansion).map fun ps => (ps.map (comparisonValue values)).prod

/-- The values of the conditions of a run of assertions. -/
def conditionValues? (values : Nat → Int) (expansion : List Symbol) : Option (List Int) :=
  (checksOf? .all expansion).map fun ps => ps.map (comparisonValue values)

theorem comparisonValue_ne_zero_iff {values : Nat → Int} {p : Nat × Nat} :
    comparisonValue values p ≠ 0 ↔ values p.1 ≠ values p.2 := by
  rw [comparisonValue]
  split_ifs with different
  · exact iff_of_true one_ne_zero different
  · exact iff_of_false (fun h => h rfl) different

theorem prod_comparisonValue_ne_zero_iff {values : Nat → Int} {ps : List (Nat × Nat)} :
    (ps.map (comparisonValue values)).prod ≠ 0 ↔ ∀ p ∈ ps, values p.1 ≠ values p.2 := by
  rw [Ne, List.prod_eq_zero_iff, List.mem_map]
  simp only [← comparisonValue_ne_zero_iff]
  grind

/-! ### Runs of checks -/

/-- A single check, which does not read on past its end. -/
structure IsPiece (extent : AssertExtent) (p : Nat × Nat) (piece : List Symbol) : Prop where
  check : checkOf? extent piece = some p
  closed : ∀ s ∈ piece, s.isMark (jointMark extent) = false

/-- Checks of some pairs, with a joint between each two. -/
inductive Checks (extent : AssertExtent) : List (Nat × Nat) → List Symbol → Prop
  | one {p : Nat × Nat} {piece : List Symbol} : IsPiece extent p piece → Checks extent [p] piece
  | more {p : Nat × Nat} {piece : List Symbol} {ps : List (Nat × Nat)} {rest : List Symbol} :
      IsPiece extent p piece → Checks extent ps rest →
      Checks extent (p :: ps) (piece ++ .mark (jointMark extent) :: rest)

variable {extent : AssertExtent}

theorem Checks.append {ps qs : List (Nat × Nat)} {symbols symbols' : List Symbol}
    (h : Checks extent ps symbols) (h' : Checks extent qs symbols') :
    Checks extent (ps ++ qs) (symbols ++ .mark (jointMark extent) :: symbols') := by
  induction h with
  | one piece => exact .more piece h'
  | more piece _ ih =>
    rw [List.append_assoc, List.cons_append]
    exact .more piece ih

/-- A run of checks is read as the pairs that it is about. -/
theorem Checks.checksOf?_eq {ps : List (Nat × Nat)} {symbols : List Symbol}
    (h : Checks extent ps symbols) : checksOf? extent symbols = some ps := by
  unfold checksOf?
  induction h with
  | one piece =>
    rw [List.splitOnP_eq_singleton piece.closed]
    simp [piece.check]
  | more piece _ ih =>
    rw [List.splitOnP_append_cons_of_forall_mem piece.closed _ (by simp [Symbol.isMark]),
      List.mapM_cons, piece.check, ih]
    rfl

theorem closed_comparisonSymbols (extent : AssertExtent) (i j : Nat) :
    ∀ s ∈ comparisonSymbols i j, s.isMark (jointMark extent) = false := by
  cases extent <;> simp [comparisonSymbols, Symbol.isMark, jointMark]

theorem isMessage_strings {strings : List Symbol} (nonempty : strings ≠ [])
    (h : ∀ s ∈ strings, s.isString = true) : isMessage (strings ++ [.mark ')']) = true := by
  induction strings with
  | nil => exact absurd rfl nonempty
  | cons s strings ih =>
    obtain ⟨first, rest⟩ := List.forall_mem_cons.1 h
    cases strings with
    | nil => exact first
    | cons t strings =>
      rw [List.cons_append, isMessage, first, ih (List.cons_ne_nil _ _) rest]
      · rfl
      · intro same
        exact absurd same (by simp)

theorem assertionOf?_symbols {i j : Nat} {message : List Symbol} (h : isMessage message = true) :
    assertionOf? (.word assertWord :: .mark '(' ::
      (comparisonSymbols i j ++ .mark ',' :: message)) = some (i, j) := by
  simp [comparisonSymbols, assertionOf?, h]

theorem isMark_of_isString {s : Symbol} (h : s.isString = true) (c : Char) :
    s.isMark c = false := by
  cases s with
  | mark d => exact absurd h Bool.false_ne_true
  | _ => rfl

end EnumMacros.Preprocessor
