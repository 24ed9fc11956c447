import EnumMacros.Header.Lines

/-! A single header with every selected macro. The macros that are called come before those that
call them. With a size cap, an open range ends at the last size with which the header fits. -/

namespace EnumMacros

/-- A header on its own, what it holds, and the events on the way to it. -/
structure Single where
  text : String
  summary : Summary
  events : List Event
  composer : Composer
  deriving Repr, DecidableEq

namespace Single

/-- The part of a span for which the family has macros. -/
def familySpan? (span : Span) (family : Family) : Option Span :=
  Span.of? (max span.first family.least) span.last

def addFamily (span : Span) (single : Single) (family : Family) : Single :=
  match familySpan? span family with
  | none => single
  | some part =>
    let printed := Printed.ofSizes single.composer family part.sizes
    { text := single.text ++ Printed.text printed.lines
      summary := single.summary.setSpan (some part) family
      events := single.events ++ printed.events ++ [.generated .single family part]
      composer := printed.composer }

/-- The header with the families' macros for the sizes of a span. -/
def make (c : Composer) (guardStyle : GuardStyle) (selection : Selection) (span : Span) : Single :=
  let opened : Single :=
    { text := guardStyle.opening (GuardStyle.tag 0)
      summary := .empty
      events := []
      composer := c }
  let filled := selection.toList.foldl (addFamily span) opened
  { filled with text := filled.text ++ guardStyle.closing }

/-- The bytes that the families' macros of one size add, with the events and the composer after. -/
def sizeAt (c : Composer) (n : Nat) : List Family → Nat × List Event × Composer
  | [] => (0, [], c)
  | family :: families =>
    let (line, after) := c.defineLine family n
    let (size, events, composer) := sizeAt after n families
    (((line.map Line.size).getD 0) + size, c.discovered after ++ events, composer)

/-- The last size that fits under a cap, with the events and the composer after the search. -/
structure Fit where
  last : Option Nat
  events : List Event
  composer : Composer
  deriving Repr, DecidableEq

/-- Searches on from size `n`, when the sizes before take up the given bytes and the last of them
is known. -/
def fitFrom (families : List Family) (range : Request) (cap : Nat) (c : Composer) (n bytes : Nat)
    (last : Option Nat) : Fit :=
  if range.reaches n then
    let (size, events, after) := sizeAt c n families
    if cap < bytes + size then ⟨last, events, after⟩
    else if n + 1 < sizeLimit then
      let rest := fitFrom families range cap after (n + 1) (bytes + size) (some n)
      { rest with events := events ++ rest.events }
    else ⟨some n, events, after⟩
  else ⟨last, [], c⟩
termination_by sizeLimit - n

/-- The last size of the range up to which a header with every selected macro stays within the
cap. -/
def fit (c : Composer) (guardStyle : GuardStyle) (selection : Selection) (range : Request)
    (cap : Nat) : Fit :=
  fitFrom selection.toList range cap c range.first (guardStyle.size 0) none

end Single

end EnumMacros
