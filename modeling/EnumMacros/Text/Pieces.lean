import EnumMacros.Text.Classes

/-! Pieces of a text. A text is split at a character, into one piece more than there are places
where the character stands. It has lines, which end at a line feed, together with a carriage return
right before it, or at the end of the text; after a last line feed no empty line follows. It is
trimmed by leaving out the blanks at both of its ends. Places in it are counted by the bytes of
UTF-8 in front of them, and it can be cut only at a place between two characters. -/

namespace EnumMacros.Text

/-- The pieces of a run of characters between the places where `mark` stands. -/
def splitChars (mark : Char) : List Char → List (List Char)
  | [] => [[]]
  | c :: cs =>
    if c = mark then [] :: splitChars mark cs
    else
      match splitChars mark cs with
      | [] => [[c]]
      | piece :: pieces => (c :: piece) :: pieces

/-- The pieces of a text between the places where `mark` stands. -/
def split (mark : Char) (text : String) : List String :=
  (splitChars mark text.toList).map String.ofList

/-- The line whose characters, the last first, came before a line feed. -/
def endedLine : List Char → List Char
  | '\r' :: line => line.reverse
  | line => line.reverse

/-- The lines of the rest of a text, of which the open line holds the given characters, the last
first. -/
def linesFrom (line : List Char) : List Char → List (List Char)
  | [] => if line.isEmpty then [] else [line.reverse]
  | c :: cs => if c = '\n' then endedLine line :: linesFrom [] cs else linesFrom (c :: line) cs

def lines (text : String) : List String := (linesFrom [] text.toList).map String.ofList

@[simp] theorem lines_empty : lines "" = [] := rfl

def trimBlanks (cs : List Char) : List Char :=
  ((cs.dropWhile isBlank).reverse.dropWhile isBlank).reverse

@[simp] theorem trimBlanks_nil : trimBlanks [] = [] := rfl

def trim (text : String) : String := String.ofList (trimBlanks text.toList)

@[simp] theorem toList_trim (text : String) : (trim text).toList = trimBlanks text.toList := by
  simp [trim]

/-- The number of bytes of a run of characters. -/
def byteLength : List Char → Nat
  | [] => 0
  | c :: cs => c.utf8Size + byteLength cs

/-- The parts of a text before and after a place; there are none when the place is inside a
character or beyond the end. -/
def cut? (place : Nat) : List Char → Option (List Char × List Char)
  | [] => if place = 0 then some ([], []) else none
  | c :: cs =>
    if place = 0 then some ([], c :: cs)
    else if place < c.utf8Size then none
    else (cut? (place - c.utf8Size) cs).map fun (before, after) => (c :: before, after)

/-- The part of a text from one place up to a later one. -/
def piece? (first last : Nat) (cs : List Char) : Option (List Char) := do
  let (_, after) ← cut? first cs
  let (piece, _) ← cut? (last - first) after
  return piece

theorem byteLength_append (before after : List Char) :
    byteLength (before ++ after) = byteLength before + byteLength after := by
  induction before with
  | nil => simp [byteLength]
  | cons c cs ih => simp [byteLength, ih, Nat.add_assoc]

/-- A text can be cut where a run of its characters ends. -/
theorem cut?_byteLength (before after : List Char) :
    cut? (byteLength before) (before ++ after) = some (before, after) := by
  induction before with
  | nil => cases after <;> simp [cut?, byteLength]
  | cons c cs ih =>
    have positive := c.utf8Size_pos
    have nonzero : ¬ (c.utf8Size = 0 ∧ byteLength cs = 0) := by omega
    have fits : ¬ c.utf8Size + byteLength cs < c.utf8Size := by omega
    have rest : c.utf8Size + byteLength cs - c.utf8Size = byteLength cs := by omega
    simp only [List.cons_append, cut?, byteLength, Nat.add_eq_zero_iff, if_neg nonzero, if_neg fits,
      rest, ih, Option.map_some]

end EnumMacros.Text
