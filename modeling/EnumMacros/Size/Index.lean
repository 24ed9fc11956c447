import EnumMacros.Size.Span

/-! The spans of consecutive headers, kept in the order in which the headers are written. Each
starts after the one before it ends, so those that meet a given span stand next to each other, and
a search by halves finds both ends of that run. -/

namespace EnumMacros

/-- The number of leading elements with the property, found by halves between `low` and `high`. It
is right where no element without the property stands before one that has it. -/
def partitionPoint {α : Type} (p : α → Bool) (xs : Array α) (low high : Nat) : Nat :=
  if low < high then
    let middle := (low + high) / 2
    match xs[middle]? with
    | none => low
    | some x =>
      if p x then partitionPoint p xs (middle + 1) high else partitionPoint p xs low middle
  else low
termination_by high - low

/-- The spans of the headers written so far. -/
structure HeaderIndex where
  spans : Array Span
  deriving Repr, DecidableEq

namespace HeaderIndex

def empty : HeaderIndex := ⟨#[]⟩

def push (index : HeaderIndex) (s : Span) : HeaderIndex := ⟨index.spans.push s⟩

@[simp] theorem toList_push (index : HeaderIndex) (s : Span) :
    (index.push s).spans.toList = index.spans.toList ++ [s] := by
  simp [push]

/-- The spans that share a size with the given one; a reversed span shares none. -/
def meeting (index : HeaderIndex) (s : Span) : List Span :=
  if s.last < s.first then []
  else
    let start := partitionPoint (·.last < s.first) index.spans 0 index.spans.size
    let stop := partitionPoint (·.first ≤ s.last) index.spans 0 index.spans.size
    (index.spans.extract start stop).toList

end HeaderIndex

end EnumMacros
