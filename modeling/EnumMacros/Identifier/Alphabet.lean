/-! The alphabet of the generated identifiers: 63 symbols, of which the 52 letters may stand first.
The position of a symbol in the alphabet is the digit that it stands for in base 63. -/

namespace EnumMacros.Identifier

def base : Nat := 63

/-- The number of symbols that may stand first: the letters. -/
def leads : Nat := 52

/-- The symbols in order: small letters, capital letters, the underscore, the digits `1` to `9`,
and `0`. -/
def alphabet : List Char :=
  "abcdefghijklmnopqrstuvwxyzABCDEFGHIJKLMNOPQRSTUVWXYZ_1234567890".toList

def symbolOf (digit : Nat) : Char := alphabet.getD digit '0'

/-- The digit that a character stands for, when it is a symbol. -/
def digit? (c : Char) : Option Nat :=
  if 'a' ≤ c ∧ c ≤ 'z' then some (c.toNat - 97)
  else if 'A' ≤ c ∧ c ≤ 'Z' then some (c.toNat - 65 + 26)
  else if c = '_' then some 52
  else if '1' ≤ c ∧ c ≤ '9' then some (c.toNat - 49 + 53)
  else if c = '0' then some 62
  else none

theorem digit?_symbolOf : ∀ d < base, digit? (symbolOf d) = some d := by decide +kernel

/-- Letters, digits and the underscore. -/
def isWordChar (c : Char) : Bool := (digit? c).isSome

/-- Word characters that may open a C identifier: all but the digits. -/
def isWordStart (c : Char) : Bool := (digit? c).any (· ≤ leads)

end EnumMacros.Identifier
