import EnumMacros.Family
import EnumMacros.Size.Span

/-! Where the headers of a tree stand. Every family has a directory, in which a header is nested by
the digits that the ends of its span both begin with, a group of digits for each level. A header
with a single size is nested by all digits of the size but the last. -/

namespace EnumMacros.Layout

/-- The beginning that two lists share. -/
def sharedStart {α : Type} [BEq α] : List α → List α → List α
  | x :: xs, y :: ys => if x == y then x :: sharedStart xs ys else []
  | _, _ => []

/-- A list cut into groups of the given length; a rest that fills no group is left out. -/
def groups {α : Type} (length : Nat) (xs : List α) : List (List α) :=
  if length = 0 ∨ xs.length < length then []
  else xs.take length :: groups length (xs.drop length)
termination_by xs.length
decreasing_by simp only [List.length_drop]; omega

/-- The digits by which a header is nested: those that both ends begin with, or for a single size
all of its digits but the last. Sizes between the ends may begin otherwise. -/
def nestingDigits (span : Span) : List Char :=
  if span.isSingle then (Nat.toDigits 10 span.first).dropLast
  else sharedStart (Nat.toDigits 10 span.first) (Nat.toDigits 10 span.last)

/-- The directory of a header, from the top of the tree down. -/
def directory (family : Family) (span : Span) (groupLength : Nat) : List String :=
  family.word :: (groups groupLength (nestingDigits span)).map String.ofList

def headerName (family : Family) (span : Span) : String := family.word ++ span.text ++ ".h"

/-- The components of the way from one directory to another: up to the last directory that both
are in, and down again. -/
def steps (source target : List String) : List String :=
  let shared := (sharedStart source target).length
  List.replicate (source.length - shared) ".." ++ target.drop shared

/-- The way from one directory to another as a path that a file name can follow. -/
def way (source target : List String) : String :=
  String.join ((steps source target).map (· ++ "/"))

end EnumMacros.Layout
