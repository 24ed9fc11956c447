/-! Decimal numerals as they are read from arguments. A numeral is a run of the digits `0` to `9`
after an optional sign; leading zeros are allowed, and a number outside the range that the reader
asks for is refused like any other malformed text. Numbers of other kinds are told from other texts
only. -/

namespace EnumMacros.Text

/-- The value of a decimal digit. -/
def digitValue? (c : Char) : Option Nat :=
  if '0' ≤ c ∧ c ≤ '9' then some (c.toNat - 48) else none

/-- Reads on from the value of the digits before. -/
def readDigits (value : Nat) : List Char → Option Nat
  | [] => some value
  | c :: cs => (digitValue? c).bind fun digit => readDigits (10 * value + digit) cs

def readNumeral : List Char → Option Nat
  | [] => none
  | c :: cs => readDigits 0 (c :: cs)

/-- The value, when it lies below the limit. -/
def below (limit value : Nat) : Option Nat := if value < limit then some value else none

/-- Reads a number below `limit`: digits after an optional `+`. -/
def readBelow (limit : Nat) : List Char → Option Nat
  | '+' :: digits => (readNumeral digits).bind (below limit)
  | digits => (readNumeral digits).bind (below limit)

/-- Reads a whole number from `-limit` up to, but not including, `limit`: digits after an optional
`+` or `-`. -/
def readSigned (limit : Nat) : List Char → Option Int
  | '-' :: digits => ((readNumeral digits).bind (below (limit + 1))).map fun n => -(n : Int)
  | digits => (readBelow limit digits).map fun n => (n : Int)

/-- Whether a text reads as a number: digits with an optional point and exponent, or a word for an
infinite or undefined one, after an optional sign. -/
def isNumber (text : List Char) : Bool :=
  let unsigned := match text with
    | '+' :: cs => cs
    | '-' :: cs => cs
    | cs => cs
  let word := unsigned.map Char.toLower
  let (whole, rest) := unsigned.span Char.isDigit
  let (fraction, rest) := match rest with
    | '.' :: cs => cs.span Char.isDigit
    | cs => ([], cs)
  let exponent := match rest with
    | [] => true
    | e :: cs =>
      let digits := match cs with
        | '+' :: ds => ds
        | '-' :: ds => ds
        | ds => ds
      e.toLower == 'e' && !digits.isEmpty && digits.all Char.isDigit
  word == "inf".toList || word == "infinity".toList || word == "nan".toList ||
    (!(whole ++ fraction).isEmpty && exponent)

/-- The digits of a number, without leading zeros. -/
def decimal (n : Nat) : String := Nat.repr n

end EnumMacros.Text
