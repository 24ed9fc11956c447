import EnumMacros.Fault
import EnumMacros.Text.Pieces

/-! Ranges of macro sizes. A span has both ends; a request may leave its end open, and is then cut
where the output grows too large. -/

namespace EnumMacros

/-- Sizes lie below this bound. -/
def sizeLimit : Nat := 0x100000000

/-- A number, where it is within the bound on sizes. -/
def withinSizes? (n : Nat) : Option Nat := Text.below sizeLimit n

theorem withinSizes?_eq_some_iff {n m : Nat} :
    withinSizes? n = some m ↔ n < sizeLimit ∧ n = m := by
  rw [withinSizes?, Text.below, Option.ite_none_right_eq_some, Option.some.injEq]

theorem withinSizes?_eq_none_iff {n : Nat} : withinSizes? n = none ↔ sizeLimit ≤ n := by
  simp [withinSizes?, Text.below]

/-- The sizes from `first` to `last`, both included. A span whose ends are reversed holds none. -/
structure Span where
  first : Nat
  last : Nat
  deriving Repr, BEq, DecidableEq

namespace Span

/-- The span with the given ends, unless they are reversed. -/
def of? (first last : Nat) : Option Span :=
  if first ≤ last then some ⟨first, last⟩ else none

def single (n : Nat) : Span := ⟨n, n⟩

def isSingle (s : Span) : Bool := s.first == s.last

def sizes (s : Span) : List Nat := List.range' s.first (s.last + 1 - s.first)

/-- A single size alone, or both ends with a dash between them. -/
def text (s : Span) : String :=
  if s.isSingle then Text.decimal s.first
  else Text.decimal s.first ++ "-" ++ Text.decimal s.last

def record (s : Span) : String :=
  "NRange \x7b start: " ++ Text.decimal s.first ++ ", end: " ++ Text.decimal s.last ++ " \x7d"

@[simp] theorem mem_sizes {s : Span} {n : Nat} : n ∈ s.sizes ↔ s.first ≤ n ∧ n ≤ s.last := by
  simp only [sizes, List.mem_range'_1]
  omega

end Span

/-- A range of sizes as it is asked for. -/
structure Request where
  first : Nat
  last : Option Nat
  deriving Repr, BEq, DecidableEq

namespace Request

def hasEnd (r : Request) : Bool := r.last.isSome

/-- Whether a size has not passed the end. -/
def reaches (r : Request) (n : Nat) : Bool := r.last.all (n ≤ ·)

/-- The part of the range from `least` on, unless that part is empty. -/
def from? (r : Request) (least : Nat) : Option Request :=
  let part : Request := ⟨max r.first least, r.last⟩
  if part.reaches part.first then some part else none

/-- Reads one end of a range, with blanks around it. -/
def readSize (cs : List Char) : Option Nat := Text.readBelow sizeLimit (Text.trimBlanks cs)

/-- The range whose two sides of the first dash are given; without a dash there is one side. -/
def ofSides (text : String) (left : List Char) : Option (List Char) → Except Fault Request
  | none =>
    match readSize left with
    | some n => .ok ⟨n, some n⟩
    | none => .error (.unreadableRange text)
  | some right =>
    match readSize left with
    | none => .error (.unreadableRange text)
    | some first =>
      if (Text.trimBlanks right).isEmpty then .ok ⟨first, none⟩
      else
        match readSize right with
        | none => .error (.unreadableRange text)
        | some last =>
          if last < first then .error (.backwardRange first last) else .ok ⟨first, some last⟩

def afterDash : List Char → Option (List Char)
  | [] => none
  | c :: cs => if c = '-' then some cs else afterDash cs

/-- Reads a range: one size, two sizes with a dash between them, or a size and a dash for an open
end. -/
def parse (text : String) : Except Fault Request :=
  ofSides text (text.toList.takeWhile (· ≠ '-')) (afterDash text.toList)

end Request

end EnumMacros
