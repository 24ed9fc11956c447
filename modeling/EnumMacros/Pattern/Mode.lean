import EnumMacros.Text.Classes

/-! How a pattern is read. A spaced pattern may have blanks and comments between its parts, and a
pattern in Unicode matches characters of all scripts; both are switched on and off by flags. -/

namespace EnumMacros.Pattern

/-- What the flags so far say about how to read on. -/
structure Mode where
  spaced : Bool
  unicode : Bool
  deriving Repr, DecidableEq

namespace Mode

def standard : Mode := ⟨false, true⟩

/-- Whether a set may hold the character: without Unicode a set holds single bytes of text, which
are the characters of ASCII. -/
def holds (mode : Mode) (c : Char) : Bool := mode.unicode || c.toNat < 0x80

/-- Leaves out blanks and comments at the front. A comment goes from a hash sign to the end of the
line. -/
def dropSpace (inComment : Bool) : List Char → List Char
  | [] => []
  | c :: cs =>
    if inComment then dropSpace (c != '\n') cs
    else if Text.isBlank c then dropSpace false cs
    else if c = '#' then dropSpace true cs
    else c :: cs

def skip (mode : Mode) (cs : List Char) : List Char :=
  if mode.spaced then dropSpace false cs else cs

/-- The character that decides whether a minus sign before it makes a range. Of a comment, only the
sign in front is passed over. -/
def peek (mode : Mode) (cs : List Char) : Option Char :=
  if mode.spaced then
    match cs.dropWhile Text.isBlank with
    | '#' :: cs => (cs.dropWhile Text.isBlank).head?
    | cs => cs.head?
  else cs.head?

end Mode

def flagLetters : List Char := "imsUuRx".toList

/-- Whether a row of flags is well formed: no letter occurs twice, and at most one minus sign, which
does not end the row. -/
def areFlags (row : List Char) : Bool :=
  row.all (fun c => c = '-' || flagLetters.contains c) && decide row.Nodup &&
    row.getLast? != some '-'

/-- What a flag is after a row of flags: on if its letter occurs in the row, or off if a minus sign
stands before the letter. -/
def flagAfter (row : List Char) (letter : Char) (now : Bool) : Bool :=
  if row.contains letter then !(row.takeWhile (· != letter)).contains '-' else now

def Mode.after (mode : Mode) (row : List Char) : Mode :=
  ⟨flagAfter row 'x' mode.spaced, flagAfter row 'u' mode.unicode⟩

end EnumMacros.Pattern
