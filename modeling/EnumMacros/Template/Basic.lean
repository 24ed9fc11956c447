import EnumMacros.Fault
import EnumMacros.Identifier.Alphabet

/-! Templates: text with references in braces. A reference names a value with an identifier, and a
brace that belongs to no reference makes a text no template. -/

namespace EnumMacros

/-- A stretch of a template: text that stands for itself, or the name of a value. -/
inductive Part
  | literal (text : String)
  | reference (name : String)
  deriving Repr, BEq, DecidableEq

namespace Part

def source : Part → String
  | literal text => text
  | reference name => Fault.bracedName name

def name? : Part → Option String
  | literal _ => none
  | reference name => some name

end Part

/-- A template: the text it was read from, and its parts in order. -/
structure Template where
  source : String
  parts : List Part
  deriving Repr, BEq, DecidableEq

namespace Template

/-- Where a reader stands: in a literal, or after the opening brace of a reference. The characters
read there are kept with the last one first. -/
inductive Cursor
  | literal (read : List Char)
  | reference (read : List Char)

/-- A literal, unless it is empty. -/
def literalParts (read : List Char) : List Part :=
  if read.isEmpty then [] else [.literal (String.ofList read.reverse)]

/-- Whether a reference's name goes on with the character: digits do not stand first. -/
def extendsName (read : List Char) (c : Char) : Bool :=
  if read.isEmpty then Identifier.isWordStart c else Identifier.isWordChar c

/-- The parts of the rest of a text, or none at a brace that belongs to no reference. -/
def partsFrom : Cursor → List Char → Option (List Part)
  | .literal read, [] => some (literalParts read)
  | .reference _, [] => none
  | .literal read, c :: cs =>
    if c = '\x7b' then (partsFrom (.reference []) cs).map (literalParts read ++ ·)
    else if c = '\x7d' then none
    else partsFrom (.literal (c :: read)) cs
  | .reference read, c :: cs =>
    if c = '\x7d' then
      if read.isEmpty then none
      else (partsFrom (.literal []) cs).map (.reference (String.ofList read.reverse) :: ·)
    else if extendsName read c then partsFrom (.reference (c :: read)) cs
    else none

/-- The hint at a brace that belongs to no reference. -/
def braceNote : String := "unmatched `\x7b` or `\x7d`: references look like `\x7bn\x7d`"

def parse (source : String) : Except Fault Template :=
  match partsFrom (.literal []) source.toList with
  | some parts => .ok { source, parts }
  | none => .error (.strayBrace source braceNote)

/-- The names that the template refers to, in order and with repetitions. -/
def references (t : Template) : List String := t.parts.filterMap Part.name?

/-- Refuses a template that refers to anything but the given names; the first such name counts. -/
def checkReferences (t : Template) (allowed : List String) : Except Fault Unit :=
  match t.references.find? (! allowed.contains ·) with
  | some unknown => .error (.unknownReference t.source unknown allowed)
  | none => .ok ()

end Template

end EnumMacros
