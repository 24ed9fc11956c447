/-! The contents of a C string literal. Every UTF-16 unit has one shortest written form that does
not run into the unit after it: printable characters as they are, the named escapes, octal up to
`0o777`, and hexadecimal above. An octal escape takes at most three digits, so a shorter one is
filled up with zeros where an octal digit follows; `\x` takes every hexadecimal digit that follows,
so where one does, the unit is written with `\u`, which takes exactly four. -/

namespace EnumMacros.Text

/-- The code units of a character in UTF-16. A character up to `U+FFFF` is one unit, any other is a
pair of surrogates with the upper and the lower ten bits of its code point less `0x10000`. -/
def charUnits (c : Char) : List Nat :=
  if c.toNat < 0x10000 then [c.toNat]
  else [0xD800 + (c.toNat - 0x10000) / 0x400, 0xDC00 + (c.toNat - 0x10000) % 0x400]

/-- The units of a run of characters, in order. -/
def units (cs : List Char) : List Nat := cs.flatMap charUnits

@[simp] theorem units_nil : units [] = [] := rfl

@[simp] theorem units_cons (c : Char) (cs : List Char) :
    units (c :: cs) = charUnits c ++ units cs := rfl

@[simp] theorem units_append (cs ds : List Char) : units (cs ++ ds) = units cs ++ units ds := by
  simp [units]

namespace CLiteral

/-- The letter of the unit's named escape. -/
def named? : Nat → Option Char
  | 7 => some 'a'
  | 8 => some 'b'
  | 9 => some 't'
  | 10 => some 'n'
  | 11 => some 'v'
  | 12 => some 'f'
  | 13 => some 'r'
  | 34 => some '\x22'
  | 92 => some '\x5c'
  | _ => none

/-- The units from `0` to `7`. -/
def isOctalDigit (unit : Nat) : Bool := 48 ≤ unit && unit ≤ 55

/-- The units from `0` to `9`, `A` to `F` and `a` to `f`. -/
def isHexDigit (unit : Nat) : Bool :=
  (48 ≤ unit && unit ≤ 57) || (65 ≤ unit && unit ≤ 70) || (97 ≤ unit && unit ≤ 102)

/-- Fills up with zeros on the left. -/
def padded (width : Nat) (digits : List Char) : List Char :=
  List.replicate (width - digits.length) '0' ++ digits

/-- The written form of a unit before the unit `next`. -/
def escapeUnit (unit : Nat) (next : Option Nat) : List Char :=
  match named? unit with
  | some letter => ['\x5c', letter]
  | none =>
    if 32 ≤ unit ∧ unit ≤ 126 then [Char.ofNat unit]
    else if unit ≤ 0o777 then
      let digits := Nat.toDigits 8 unit
      '\x5c' :: if next.any isOctalDigit then padded 3 digits else digits
    else if next.any isHexDigit then '\x5c' :: 'u' :: padded 4 (Nat.toDigits 16 unit)
    else '\x5c' :: 'x' :: Nat.toDigits 16 unit

/-- The written form of a run of units. -/
def escapeUnits : List Nat → List Char
  | [] => []
  | unit :: rest => escapeUnit unit rest.head? ++ escapeUnits rest

/-- The text as it stands between the quotes of a string literal. -/
def escape (text : String) : String := String.ofList (escapeUnits (units text.toList))

@[simp] theorem toList_escape (text : String) :
    (escape text).toList = escapeUnits (units text.toList) := by
  simp [escape]

/-- A stretch of a message: text, or the name of a parameter whose argument is to be quoted. -/
inductive Piece
  | text (content : String)
  | argument (name : String)
  deriving Repr, BEq, DecidableEq

/-- A token of a string expression: a literal with its written content, or `#` and a name. -/
inductive Token
  | literal (content : String)
  | quoted (name : String)
  deriving Repr, BEq, DecidableEq

def Token.text : Token → String
  | .literal content => "\"" ++ content ++ "\""
  | .quoted name => "#" ++ name

/-- Stretches of text that follow each other share a literal. -/
def tokens : List Piece → List Token
  | [] => []
  | .argument name :: rest => .quoted name :: tokens rest
  | .text content :: rest =>
    match tokens rest with
    | .literal after :: others => .literal (escape content ++ after) :: others
    | others => .literal (escape content) :: others

/-- A string expression with the given stretches; without any it is the empty literal. -/
def expression (pieces : List Piece) : List Token :=
  match tokens pieces with
  | [] => [.literal ""]
  | written => written

end CLiteral

end EnumMacros.Text
