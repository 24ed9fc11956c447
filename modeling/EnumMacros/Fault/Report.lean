import EnumMacros.Fault
import EnumMacros.Text.Pieces

/-! How a fault is shown: as a diagnostic for a reader, in one paragraph, or as a record on a single
line with every text in double quotes and everything in it shown. -/

namespace EnumMacros

namespace Text

/-- A character between quotes. Quotes, backslashes and the common controls have escapes of their
own, any other character without a glyph is written by its code point, and the rest stands as it
is. -/
def quotedChar (c : Char) : List Char :=
  if c = '\x22' then ['\x5c', '\x22']
  else if c = '\x5c' then ['\x5c', '\x5c']
  else if c = '\n' then ['\x5c', 'n']
  else if c = '\r' then ['\x5c', 'r']
  else if c = '\t' then ['\x5c', 't']
  else if c = '\x00' then ['\x5c', '0']
  else if isPrintable c then [c]
  else ['\x5c', 'u', '\x7b'] ++ Nat.toDigits 16 c.toNat ++ ['\x7d']

def quoted (text : String) : String :=
  String.ofList ('\x22' :: text.toList.flatMap quotedChar ++ ['\x22'])

end Text

namespace Fault

/-- The code and the message, which open every form but the record. -/
def headline (f : Fault) : String := "error[" ++ f.code ++ "]: " ++ f.message

/-- The headline and, each on a line of its own, the notes. -/
def display (f : Fault) : String :=
  f.headline ++ String.join (f.notes.map fun note => "\n  = " ++ note)

/-- A note of a diagnostic: its first line is marked, the further ones are set under it, and an
empty note leaves no trace. -/
def noteBlock (note : String) : String :=
  match Text.lines note with
  | [] => ""
  | first :: others =>
    " = " ++ first ++ "\n" ++ String.join (others.map fun line => "   " ++ line ++ "\n")

/-- The diagnostic, closed by an empty line. -/
def diagnostic (f : Fault) : String :=
  f.headline ++ "\n" ++ String.join (f.notes.map noteBlock) ++ "\n"

def record (f : Fault) : String :=
  "GenerationError \x7b code: " ++ Text.quoted f.code ++ ", message: " ++ Text.quoted f.message ++
    ", notes: [" ++ String.intercalate ", " (f.notes.map Text.quoted) ++ "] \x7d"

end Fault

end EnumMacros
