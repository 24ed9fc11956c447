import EnumMacros.Text.Numeral

/-! What can go wrong, each cause with the values that its message names. The code, the message and
the notes of a fault are functions of its cause. -/

namespace EnumMacros

inductive Fault
  /-- An identifier index is negative. -/
  | negativeIndex (index : Int)
  /-- A text is no range of sizes. -/
  | unreadableRange (text : String)
  /-- A range ends before it starts. -/
  | backwardRange (first last : Nat)
  /-- A name is no macro family. -/
  | unknownFamily (name : String)
  /-- No macro family is selected. -/
  | noFamily
  /-- A single header was asked for without an end of the range and without a size cap. -/
  | unboundedOutput (target : String)
  /-- A file or directory cannot be written. -/
  | unwritable (path reason : String)
  /-- The standard output cannot be written. -/
  | closedOutput (reason : String)
  /-- A template has a brace that belongs to no reference. -/
  | strayBrace (template reason : String)
  /-- A template refers to a value that it is not given. -/
  | unknownReference (template reference : String) (allowed : List String)
  /-- A macro name is no C identifier. -/
  | invalidName (name : String)
  /-- The value of an option is no number, or not one that the option takes. -/
  | unusableNumber (option value : String)
  deriving Repr, DecidableEq

namespace Fault

/-- The code shared by the faults of one kind. -/
def code : Fault → String
  | negativeIndex _ => "E0001"
  | unreadableRange _ | backwardRange _ _ => "E0002"
  | unknownFamily _ | noFamily => "E0003"
  | unboundedOutput _ => "E0004"
  | unwritable _ _ | closedOutput _ => "E0005"
  | strayBrace _ _ | unknownReference _ _ _ => "E0006"
  | invalidName _ => "E0007"
  | unusableNumber _ _ => "E0008"

/-- A reference as it stands in a template. -/
def bracedName (name : String) : String := "\x7b" ++ name ++ "\x7d"

def message : Fault → String
  | negativeIndex index => "identifier index must be >= 0, got " ++ toString index
  | unreadableRange text => "malformed range `" ++ text ++ "`"
  | backwardRange first last =>
    "range end (" ++ Text.decimal last ++ ") must be >= range start (" ++ Text.decimal first ++ ")"
  | unknownFamily name => "unknown macro family `" ++ name ++ "`"
  | noFamily => "at least one macro family must be selected"
  | unboundedOutput target => "output target `" ++ target ++ "` requires a finite range end"
  | unwritable path reason => "could not write `" ++ path ++ "`: " ++ reason
  | closedOutput reason => "could not write to stdout: " ++ reason
  | strayBrace template _ => "malformed template `" ++ template ++ "`"
  | unknownReference template reference _ =>
    "template `" ++ template ++ "` refers to unknown value `" ++ bracedName reference ++ "`"
  | invalidName name => "macro name `" ++ name ++ "` is not a valid C identifier"
  | unusableNumber option value => "invalid number `" ++ value ++ "` for `" ++ option ++ "`"

/-- Hints on what would have been accepted. -/
def notes : Fault → List String
  | unreadableRange _ => ["expected `N`, `START-END` or `START-`"]
  | unknownFamily _ => ["known families are `areuniq` and `uniqenum`"]
  | unboundedOutput _ => ["open-ended ranges need directory output or `--max-file-size`"]
  | strayBrace _ reason => [reason]
  | unknownReference _ _ allowed =>
    ["available here: " ++ String.intercalate ", " (allowed.map bracedName)]
  | _ => []

end Fault

/-- A sequence of two steps succeeds when both do. -/
theorem bind_eq_ok {ε α β : Type} {x : Except ε α} {f : α → Except ε β} {b : β} :
    x >>= f = .ok b ↔ ∃ a, x = .ok a ∧ f a = .ok b := by
  cases x with
  | error e => simp [bind, Except.bind]
  | ok a => simp [bind, Except.bind]

end EnumMacros
