import EnumMacros.Pattern.Mode

/-! Escapes in patterns: what follows a backslash. An escape stands for a character, for any one of
a set of characters, or for a place between characters. -/

namespace EnumMacros.Pattern

/-- What an escape stands for. -/
inductive Escape
  | character (c : Char)
  | oneOf
  | place
  deriving Repr, DecidableEq

namespace Escape

def hexValue? (c : Char) : Option Nat :=
  if c.isDigit then some (c.toNat - '0'.toNat)
  else if 'a' ≤ c ∧ c ≤ 'f' then some (c.toNat - 'a'.toNat + 10)
  else if 'A' ≤ c ∧ c ≤ 'F' then some (c.toNat - 'A'.toNat + 10)
  else none

/-- Reads hexadecimal digits on from the value of those before. -/
def readHex (mode : Mode) : Nat → Nat → List Char → Option (Nat × List Char)
  | 0, value, cs => some (value, cs)
  | digits + 1, value, cs =>
    match mode.skip cs with
    | [] => none
    | c :: cs => (hexValue? c).bind fun digit => readHex mode digits (16 * value + digit) cs

/-- Reads a character by the digits of its code point. -/
def readCode (mode : Mode) (digits : Nat) (cs : List Char) : Option (Char × List Char) := do
  let (code, rest) ← readHex mode digits 0 cs
  if code.isValidChar then some (Char.ofNat code, rest) else none

def readCategory (mode : Mode) (cs : List Char) : Option (List Char) :=
  match mode.skip cs with
  | [] => none
  | c :: cs => if mode.unicode && "clmnpsz".toList.contains c.toLower then some cs else none

/-- The letters for control characters. -/
def controls : List (Char × Char) :=
  [('a', '\x07'), ('f', '\x0c'), ('n', '\n'), ('r', '\r'), ('t', '\t'), ('v', '\x0b')]

/-- Whether a character stands for itself behind a backslash. -/
def isMark (c : Char) : Bool := c.toNat < 0x80 && !c.isAlphanum && c != '<' && c != '>'

/-- Reads an escape after its backslash. Without Unicode there are no sets with characters of other
scripts, and with it no places at the edges of words. -/
def read (mode : Mode) : List Char → Option (Escape × List Char)
  | [] => none
  | c :: cs =>
    if c = 'x' then
      match readCode mode 2 cs with
      | some (c, rest) => if mode.holds c then some (character c, rest) else none
      | none => none
    else if c = 'u' then (readCode mode 4 cs).map fun (c, rest) => (character c, rest)
    else if c = 'U' then (readCode mode 8 cs).map fun (c, rest) => (character c, rest)
    else if c = 'p' || c = 'P' then (readCategory mode cs).map fun rest => (oneOf, rest)
    else if "dsw".toList.contains c then some (oneOf, cs)
    else if "DSW".toList.contains c then if mode.unicode then some (oneOf, cs) else none
    else if "Az".toList.contains c then some (place, cs)
    else if "bB<>".toList.contains c then if mode.unicode then none else some (place, cs)
    else if isMark c then some (character c, cs)
    else (controls.lookup c).map fun c => (character c, cs)

end Escape

end EnumMacros.Pattern
