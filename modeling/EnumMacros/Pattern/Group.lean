import EnumMacros.Pattern.Mode
import EnumMacros.Text.Classes

/-! What an opening parenthesis begins: a group, which may have a name or flags of its own, or a row
of flags for the rest of the group around it. -/

namespace EnumMacros.Pattern

/-- What an opening parenthesis begins, with the mode to read on in. -/
inductive Opening
  | group (mode : Mode) (name : Option (List Char))
  | flags (mode : Mode)
  deriving Repr, DecidableEq

namespace Opening

def isName : List Char → Bool
  | [] => false
  | c :: cs =>
    (c = '_' || Text.isAlphabetic c) &&
      cs.all fun c => c = '_' || c = '.' || c = '[' || c = ']' || Text.isAlphanumeric c

/-- Reads the name of a group and the angle bracket that closes it. -/
def readName (mode : Mode) (cs : List Char) : Option (Opening × List Char) :=
  match cs.span (· != '>') with
  | (name, _ :: rest) => if isName name then some (group mode (some name), rest) else none
  | (_, []) => none

/-- Reads a row of flags and what ends it: a colon begins the group that they are for, and without a
group there is at least one flag. -/
def readFlags (mode : Mode) (cs : List Char) : Option (Opening × List Char) :=
  match cs.span fun c => c != ':' && c != ')' with
  | (row, ending :: rest) =>
    if !areFlags row then none
    else if ending = ':' then some (group (mode.after row) none, rest)
    else if row.isEmpty then none
    else some (flags (mode.after row), rest)
  | (_, []) => none

/-- Reads what an opening parenthesis begins, up to the first part of a group. -/
def read (mode : Mode) (cs : List Char) : Option (Opening × List Char) :=
  match mode.skip cs with
  | '?' :: 'P' :: '<' :: cs => readName mode cs
  | '?' :: '<' :: cs => readName mode cs
  | '?' :: cs => readFlags mode cs
  | cs => some (group mode none, cs)

end Opening

end EnumMacros.Pattern
