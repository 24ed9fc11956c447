import EnumMacros.Identifier.Alphabet

/-! The order of names in which identifiers are generated: shorter names come first, and names of
one length are compared by the first symbol in which they differ. Characters that are no symbols
come after all symbols, by code point, so that the order covers every text. Sets of numbers are kept
as strictly increasing lists. -/

namespace EnumMacros.Identifier

/-- The place of a character in the order. -/
def rank (c : Char) : Nat := (digit? c).getD (c.toNat + base)

/-- Compares by the first place where the two differ, as far as both go. -/
def compareChars : List Char → List Char → Ordering
  | c :: cs, d :: ds => if c = d then compareChars cs ds else compare (rank c) (rank d)
  | _, _ => .eq

/-- Compares by length, and at equal lengths by the first difference. -/
def compareNames (a b : String) : Ordering :=
  if a = b then .eq
  else (compare a.toList.length b.toList.length).then (compareChars a.toList b.toList)

@[simp] theorem compareNames_self (a : String) : compareNames a a = .eq := by simp [compareNames]

/-- Names in the order of generation; equal names keep their places. -/
def sortNames (names : List String) : List String :=
  names.mergeSort fun a b => (compareNames a b).isLE

/-! ### Increasing lists -/

/-- Puts a number into an increasing list, unless it is there. -/
def enter (n : Nat) : List Nat → List Nat
  | [] => [n]
  | m :: ms => if n < m then n :: m :: ms else if n = m then m :: ms else m :: enter n ms

@[simp] theorem mem_enter {n k : Nat} {ms : List Nat} : k ∈ enter n ms ↔ k = n ∨ k ∈ ms := by
  induction ms with
  | nil => simp [enter]
  | cons m ms ih =>
    unfold enter
    split
    · simp
    · split
      · next h => subst h; simp
      · rw [List.mem_cons, ih, List.mem_cons]
        exact or_left_comm

theorem pairwise_enter {n : Nat} {ms : List Nat} (h : ms.Pairwise (· < ·)) :
    (enter n ms).Pairwise (· < ·) := by
  induction ms with
  | nil => simp [enter]
  | cons m ms ih =>
    obtain ⟨above, rest⟩ := List.pairwise_cons.1 h
    unfold enter
    split
    · next lt =>
      refine List.pairwise_cons.2 ⟨fun k hk => ?_, h⟩
      rcases List.mem_cons.1 hk with rfl | hk
      · exact lt
      · exact Nat.lt_trans lt (above k hk)
    · split
      · exact h
      · refine List.pairwise_cons.2 ⟨fun k hk => ?_, ih rest⟩
        rcases mem_enter.1 hk with rfl | hk
        · omega
        · exact above k hk

/-- The numbers of a list in increasing order, each once. -/
def increasing (ns : List Nat) : List Nat := ns.foldr enter []

@[simp] theorem mem_increasing {k : Nat} {ns : List Nat} : k ∈ increasing ns ↔ k ∈ ns := by
  induction ns with
  | nil => simp [increasing]
  | cons n ns ih => simp only [increasing, List.foldr_cons, mem_enter, List.mem_cons] at *; rw [ih]

theorem pairwise_increasing (ns : List Nat) : (increasing ns).Pairwise (· < ·) := by
  induction ns with
  | nil => simp [increasing]
  | cons n ns ih => exact pairwise_enter ih

end EnumMacros.Identifier
