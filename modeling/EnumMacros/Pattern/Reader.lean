import EnumMacros.Pattern.Bracket
import EnumMacros.Pattern.Group

/-! Patterns for texts. A pattern is a row of parts, or several such rows between bars. A part is a
character, an escape, a set in brackets, a place, or a group in parentheses, and signs after a part
repeat it. Only whether a text is a pattern is told here. A count of repetitions in braces is never
complete, because nothing that is read as a pattern holds a closing brace. -/

namespace EnumMacros.Pattern

/-- A group that is being read: its rows before the last bar, the parts after it, and the depth of
the last of these if it can be repeated. -/
structure GroupReading where
  rows : Row
  parts : Row
  last : Option Nat
  deriving Repr, DecidableEq

namespace GroupReading

def start : GroupReading := ⟨.empty, .empty, none⟩

def add (group : GroupReading) (depth : Nat) : GroupReading :=
  { group with parts := group.parts.add depth, last := some depth }

def addFlags (group : GroupReading) : GroupReading :=
  { group with parts := group.parts.add 0, last := none }

def bar (group : GroupReading) : GroupReading :=
  ⟨group.rows.add group.parts.depth, .empty, none⟩

/-- Repeats the last part, which becomes one deeper. -/
def repeated? (group : GroupReading) : Option GroupReading :=
  group.last.map fun depth =>
    { group with
      parts := ⟨group.parts.count, max group.parts.deepest (depth + 1)⟩
      last := some (depth + 1) }

def depth (group : GroupReading) : Nat := (group.rows.add group.parts.depth).depth

end GroupReading

/-- Passes over a question mark after a sign of repetition, which prefers the fewest. -/
def skipLazy : List Char → List Char
  | '?' :: cs => cs
  | cs => cs

/-- Reads a group up to the parenthesis that closes it, or to the end; gives its depth, and the
names of groups so far with those in it. The fuel is more than the characters left. -/
def readGroup : Nat → Mode → List (List Char) → GroupReading → List Char →
    Option (Nat × List (List Char) × List Char)
  | 0, _, _, _, _ => none
  | fuel + 1, mode, names, group, cs =>
    match mode.skip cs with
    | [] => some (group.depth, names, [])
    | c :: rest =>
      if c = ')' then some (group.depth, names, c :: rest)
      else if c = '|' then readGroup fuel mode names group.bar rest
      else if c = '(' then
        match Opening.read mode rest with
        | none => none
        | some (.flags mode, rest) => readGroup fuel mode names group.addFlags rest
        | some (.group inner name, rest) =>
          if name.any names.contains then none
          else
            match readGroup fuel inner (name.toList ++ names) .start rest with
            | some (depth, names, ')' :: rest) =>
              readGroup fuel mode names (group.add (depth + 1)) rest
            | _ => none
      else if c = '[' then
        match readBracket mode rest with
        | some (depth, rest) => readGroup fuel mode names (group.add depth) rest
        | none => none
      else if c = '?' || c = '*' || c = '+' then
        match group.repeated? with
        | some group => readGroup fuel mode names group (skipLazy rest)
        | none => none
      else if c = '\x7b' then none
      else if c = '\\' then
        match Escape.read mode rest with
        | some (_, rest) => readGroup fuel mode names (group.add 0) rest
        | none => none
      else if c = '.' && !mode.unicode then none
      else readGroup fuel mode names (group.add 0) rest

def isPattern (cs : List Char) : Bool :=
  match readGroup (cs.length + 1) .standard [] .start cs with
  | some (depth, _, []) => depth ≤ depthLimit
  | _ => false

end EnumMacros.Pattern
