import EnumMacros.Definition.Pairs

/-! The division of the positions `0` to `n - 1` into three runs of nearly equal length, which lets
three smaller checks cover every pair of positions. -/

namespace EnumMacros

/-- A run of consecutive positions. -/
structure Run where
  start : Nat
  length : Nat
  deriving Repr, BEq, DecidableEq

namespace Run

/-- The elements of a list at the positions of the run. -/
def members {α : Type} (r : Run) (xs : List α) : List α := (xs.drop r.start).take r.length

end Run

def partCount : Nat := 3

section Parts

variable {m : Type → Type} [Monad m] (number : Nat → m Nat)

/-- A part of the positions `0` to `n - 1`. What comes of the numbers that are computed on the way
to it is left to `number`. -/
def partBy (n p : Nat) : m Run := do
  let before ← number (p * (n / partCount))
  let start ← number (before + min p (n % partCount))
  let length ← number (n / partCount + if p < n % partCount then 1 else 0)
  return { start, length }

def partsBy (n : Nat) : m (List Run) := (List.range partCount).mapM (partBy number n)

/-- The sizes of the checks on every two parts together. -/
def calleeSizesBy (n : Nat) : m (List Nat) := do
  (pairs (← partsBy number n)).mapM fun (q, r) => number (q.length + r.length)

end Parts

/-- Consecutive runs whose lengths differ by at most one, the longer ones first. -/
def parts (n : Nat) : List Run := Id.run (partsBy pure n)

theorem parts_eq_map (n : Nat) :
    parts n = (List.range partCount).map fun p => Id.run (partBy pure n p) := rfl

@[simp] theorem length_parts (n : Nat) : (parts n).length = partCount := by simp [parts_eq_map]

end EnumMacros
