import EnumMacros.Identifier.Alphabet

/-! Identifiers and their raw indices. The identifiers over the alphabet that start with a letter
are counted by length, and within a length by the positions of their symbols from left to right:
those with `k` symbols after the first take up a block of `52 * 63 ^ k` raw indices. `spell` gives
the identifier at an index and `rawIndex?` the index of an identifier, as long as the index and
every number met on the way to it fit into 128 bits; `spell?` is `spell` in such numbers. -/

namespace EnumMacros.Identifier

/-- Raw indices that can be asked for lie below this bound. -/
def indexLimit : Nat := 0x100000000000000000000000000000000

/-- The number of runs of `k` symbols. -/
def runs : Nat → Nat
  | 0 => 1
  | k + 1 => base * runs k

theorem runs_pos (k : Nat) : 0 < runs k := by
  induction k with
  | zero => exact Nat.one_pos
  | succ k ih => exact Nat.mul_pos (by decide) ih

/-- The block that holds an index, given as an offset from the start of block `k`: the number of
symbols after the first, and the offset within that block. -/
def locate (offset k : Nat) : Nat × Nat :=
  if offset < leads * runs k then (k, offset)
  else locate (offset - leads * runs k) (k + 1)
termination_by offset
decreasing_by
  have : 0 < leads * runs k := Nat.mul_pos (by decide) (runs_pos k)
  omega

/-- The last `k` digits of a number in base 63, the most significant first. -/
def digits : Nat → Nat → List Nat
  | 0, _ => []
  | k + 1, value => value / runs k :: digits k (value % runs k)

@[simp] theorem length_digits (k value : Nat) : (digits k value).length = k := by
  induction k generalizing value with
  | zero => rfl
  | succ k ih => simp [digits, ih]

/-- The symbols of the identifier at a raw index. -/
def spellChars (raw : Nat) : List Char :=
  let (k, offset) := locate raw 0
  symbolOf (offset / runs k) :: (digits k (offset % runs k)).map symbolOf

def spell (raw : Nat) : String := String.ofList (spellChars raw)

@[simp] theorem toList_spell (raw : Nat) : (spell raw).toList = spellChars raw := by
  simp [spell]

/-- The number, when it is a possible index. -/
def inBound (n : Nat) : Option Nat := if n < indexLimit then some n else none

@[simp] theorem inBound_eq_some_iff {n m : Nat} : inBound n = some m ↔ n < indexLimit ∧ n = m := by
  by_cases h : n < indexLimit <;> simp [inBound, h]

/-- The size of block `k` in numbers of 128 bits, where the largest of them stands for all that are
larger. -/
def blockSize (k : Nat) : Nat := min (leads * runs k) (indexLimit - 1)

theorem blockSize_pos (k : Nat) : 0 < blockSize k := by
  have : 0 < leads * runs k := Nat.mul_pos (by decide) (runs_pos k)
  rw [blockSize, Nat.lt_min]
  exact ⟨this, by decide⟩

/-- The block that holds an index, as `locate` finds it, in numbers of 128 bits; none when the
number of runs in the next block would be out of bound. -/
def locate? (offset k : Nat) : Option (Nat × Nat) :=
  if offset < blockSize k then some (k, offset)
  else if runs (k + 1) < indexLimit then locate? (offset - blockSize k) (k + 1)
  else none
termination_by offset
decreasing_by
  have := blockSize_pos k
  omega

/-- The symbol that stands for a digit, if there is one. -/
def symbol? (digit : Nat) : Option Char := alphabet[digit]?

/-- The identifier at a raw index in numbers of 128 bits; none where one of them would be out of
bound, or a digit beyond the alphabet. -/
def spell? (raw : Nat) : Option String := do
  let (k, offset) ← locate? raw 0
  let lead ← symbol? (offset / runs k)
  let tail ← (digits k (offset % runs k)).mapM symbol?
  return String.ofList (lead :: tail)

/-- What has been read of an identifier after its first symbol: how many identifiers are shorter,
how many there are of its length for each first symbol, and its place among those. -/
structure Reading where
  shorter : Nat
  weight : Nat
  tail : Nat
  deriving Repr, DecidableEq

/-- An identifier of which only the first symbol has been read. -/
def Reading.start : Reading := ⟨0, 1, 0⟩

def Reading.next (r : Reading) (c : Char) : Option Reading := do
  let digit ← digit? c
  let block ← inBound (leads * r.weight)
  let shorter ← inBound (r.shorter + block)
  let weight ← inBound (r.weight * base)
  let shifted ← inBound (r.tail * base)
  let tail ← inBound (shifted + digit)
  return ⟨shorter, weight, tail⟩

/-- The raw index of an identifier; none for a text that is no identifier over the alphabet, or
whose index is out of bound. -/
def rawIndexOfChars? : List Char → Option Nat
  | [] => none
  | c :: cs => do
    let lead ← digit? c
    if lead < leads then
      let r ← cs.foldlM Reading.next Reading.start
      let head ← inBound (lead * r.weight)
      let first ← inBound (r.shorter + head)
      inBound (first + r.tail)
    else none

def rawIndex? (name : String) : Option Nat := rawIndexOfChars? name.toList

end EnumMacros.Identifier
