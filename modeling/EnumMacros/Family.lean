import EnumMacros.Fault
import EnumMacros.Text.Pieces

/-! The two families of macros and the selection of those to generate. A macro of the first family
checks that its arguments are pairwise distinct; one of the second declares an enum and has the
first check its values. -/

namespace EnumMacros

/-- A family of macros, with one macro per size. -/
inductive Family
  | distinct
  | enum
  deriving Repr, BEq, DecidableEq

namespace Family

def word : Family → String
  | distinct => "areuniq"
  | enum => "uniqenum"

/-- The smallest size for which the family has a macro. -/
def least : Family → Nat
  | distinct => 2
  | enum => 1

/-- Reads the word of a family, with blanks around it. -/
def parse (name : String) : Except Fault Family :=
  let word := Text.trim name
  if word = distinct.word then .ok distinct
  else if word = enum.word then .ok enum
  else .error (.unknownFamily word)

end Family

/-- What becomes of the macros that the selected ones call. -/
inductive Dependencies
  | added
  | omitted
  deriving Repr, BEq, DecidableEq

structure Selection where
  distinct : Bool
  enum : Bool
  deriving Repr, BEq, DecidableEq

namespace Selection

def all : Selection := ⟨true, true⟩

def empty : Selection := ⟨false, false⟩

def insert (s : Selection) : Family → Selection
  | .distinct => { s with distinct := true }
  | .enum => { s with enum := true }

def contains (s : Selection) : Family → Bool
  | .distinct => s.distinct
  | .enum => s.enum

def isEmpty (s : Selection) : Bool := !s.distinct && !s.enum

/-- The selected families; those that are called come first. -/
def toList (s : Selection) : List Family := [Family.distinct, .enum].filter s.contains

/-- The enum macros call those of the other family, which is pulled in unless that is omitted. -/
def completed (s : Selection) : Dependencies → Selection
  | .added => { s with distinct := s.distinct || s.enum }
  | .omitted => s

/-- The items of a list with commas between them. -/
def items (list : String) : List String := Text.split ',' list

/-- Reads a list of families with commas between them. Blank items are passed over, but some family
has to be named. -/
def parse (list : String) : Except Fault Selection := do
  let named := (items list).filter fun item => (Text.trim item) ≠ ""
  let families ← named.mapM Family.parse
  let selection := families.foldl insert empty
  if selection.isEmpty then .error .noFamily else .ok selection

end Selection

end EnumMacros
