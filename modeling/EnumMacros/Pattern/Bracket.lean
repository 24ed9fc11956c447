import EnumMacros.Pattern.Escape

/-! Sets of characters in brackets. A set lists characters, ranges, escapes, named sets and sets in
brackets of their own; two marks of a kind between such lists combine them, from the left. What
stands alone in a pattern has no depth; a row of at least two things is one deeper than the deepest
of them. -/

namespace EnumMacros.Pattern

/-- Things side by side: how many they are, and the depth of the deepest. -/
structure Row where
  count : Nat
  deepest : Nat
  deriving Repr, DecidableEq

namespace Row

def empty : Row := ⟨0, 0⟩

/-- One thing more, of some depth. -/
def add (row : Row) (depth : Nat) : Row := ⟨row.count + 1, max row.deepest depth⟩

def depth (row : Row) : Nat := if row.count < 2 then row.deepest else row.deepest + 1

end Row

/-- The greatest depth that a pattern may have. -/
def depthLimit : Nat := 250

def setNames : List (List Char) :=
  ["alnum".toList, "alpha".toList, "ascii".toList, "blank".toList, "cntrl".toList, "digit".toList,
    "graph".toList, "lower".toList, "print".toList, "punct".toList, "space".toList, "upper".toList,
    "word".toList, "xdigit".toList]

/-- Takes the name of a set between colons and the bracket after it off the front. A caret before
the name asks for all other characters. -/
def readNamed? : List Char → Option (Bool × List Char)
  | ':' :: cs =>
    let (others, cs) := match cs with
      | '^' :: cs => (true, cs)
      | cs => (false, cs)
    match cs.span (· != ':') with
    | (name, ':' :: ']' :: rest) => if setNames.contains name then some (others, rest) else none
    | _ => none
  | _ => none

/-- Reads a member of a set: a character, or an escape for any one of a set. -/
def readMember (mode : Mode) : List Char → Option (Option Char × List Char)
  | [] => none
  | '\\' :: cs =>
    match Escape.read mode cs with
    | some (.character c, rest) => if mode.holds c then some (some c, rest) else none
    | some (.oneOf, rest) => some (none, rest)
    | some (.place, _) => none
    | none => none
  | c :: cs => if mode.holds c then some (some c, cs) else none

/-- Reads a member of a set, or a range between two characters in order. A minus sign before a
closing bracket or another minus sign makes no range. -/
def readMembers (mode : Mode) (cs : List Char) : Option (List Char) :=
  match readMember mode cs with
  | none => none
  | some (lower, rest) =>
    match mode.skip rest with
    | '-' :: cs =>
      if mode.peek cs = some ']' || mode.peek cs = some '-' then some ('-' :: cs)
      else
        match lower, readMember mode (mode.skip cs) with
        | some lower, some (some upper, rest) => if lower ≤ upper then some rest else none
        | _, _ => none
    | rest => some rest

/-- A set that is being read: the depth of what stands before the last combining marks, and the
members after them. -/
structure SetReading where
  before : Option Nat
  members : Row
  deriving Repr, DecidableEq

namespace SetReading

def start : SetReading := ⟨none, .empty⟩

def depth (set : SetReading) : Nat :=
  match set.before with
  | none => set.members.depth
  | some before => max before set.members.depth + 1

def add (set : SetReading) (depth : Nat) : SetReading :=
  { set with members := set.members.add depth }

/-- Combines what has been read with what follows. -/
def combined (set : SetReading) : SetReading := ⟨some set.depth, .empty⟩

end SetReading

/-- Passes over a caret at the front of a set, which asks for all other characters. -/
def openSet (mode : Mode) (cs : List Char) : Option (List Char) :=
  match mode.skip cs with
  | '^' :: cs => if mode.unicode then some cs else none
  | cs => some cs

/-- Reads a set up to its closing bracket; gives its depth. At the front, minus signs and a bracket
before any member stand for themselves. The fuel is more than the characters left. -/
def readSet : Nat → Mode → Bool → SetReading → List Char → Option (Nat × List Char)
  | 0, _, _, _, _ => none
  | fuel + 1, mode, atFront, set, cs =>
    match mode.skip cs with
    | [] => none
    | c :: rest =>
      if atFront && c = '-' then readSet fuel mode true (set.add 0) rest
      else if c = ']' then
        if atFront && set.members.count = 0 then readSet fuel mode false (set.add 0) rest
        else some (set.depth, rest)
      else if c = '[' then
        match readNamed? rest with
        | some (others, rest) =>
          if others && !mode.unicode then none else readSet fuel mode false (set.add 0) rest
        | none =>
          match (openSet mode rest).bind (readSet fuel mode true .start) with
          | some (depth, rest) => readSet fuel mode false (set.add (depth + 1)) rest
          | none => none
      else if (c = '&' || c = '-' || c = '~') && rest.head? = some c then
        readSet fuel mode false set.combined rest.tail
      else
        match readMembers mode (c :: rest) with
        | some rest => readSet fuel mode false (set.add 0) rest
        | none => none

/-- Reads a set in brackets after the opening one; gives its depth. -/
def readBracket (mode : Mode) (cs : List Char) : Option (Nat × List Char) := do
  let cs ← openSet mode cs
  let (depth, rest) ← readSet (cs.length + 1) mode true .start cs
  return (depth + 1, rest)

end EnumMacros.Pattern
