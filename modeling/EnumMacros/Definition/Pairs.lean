/-! The pairs of a list, each element with those after it, and the cost of a list of pairs as far
as a budget goes. -/

namespace EnumMacros

/-- Each element with each one after it, in order. -/
def pairs {α : Type} : List α → List (α × α)
  | [] => []
  | x :: xs => xs.map (x, ·) ++ pairs xs

@[simp] theorem pairs_nil {α : Type} : pairs ([] : List α) = [] := rfl

@[simp] theorem pairs_cons {α : Type} (x : α) (xs : List α) :
    pairs (x :: xs) = xs.map (x, ·) ++ pairs xs := rfl

def total : List Nat → Nat
  | [] => 0
  | n :: ns => n + total ns

theorem total_append (ms ns : List Nat) : total (ms ++ ns) = total ms + total ns := by
  induction ms with
  | nil => simp [total]
  | cons m ms ih => simp [total, ih, Nat.add_assoc]

/-- What is left of a budget after the cost of each element, unless it runs out. -/
def spend {α : Type} (cost : α → Nat) : List α → Nat → Option Nat
  | [], room => some room
  | x :: xs, room => if cost x ≤ room then spend cost xs (room - cost x) else none

/-- What is left of a budget after the cost of each pair, unless it runs out. No more pairs are
looked at than the budget pays for. -/
def spendPairs {α : Type} (cost : α → α → Nat) : List α → Nat → Option Nat
  | [], room => some room
  | x :: xs, room => (spend (cost x) xs room).bind (spendPairs cost xs)

theorem spend_eq {α : Type} (cost : α → Nat) (xs : List α) (room : Nat) :
    spend cost xs room =
      if total (xs.map cost) ≤ room then some (room - total (xs.map cost)) else none := by
  induction xs generalizing room with
  | nil => simp [spend, total]
  | cons x xs ih =>
    simp only [spend, ih, List.map_cons, total]
    by_cases h : cost x ≤ room
    · by_cases h' : total (xs.map cost) ≤ room - cost x
      · rw [if_pos h, if_pos h', if_pos (by omega), Nat.sub_add_eq]
      · rw [if_pos h, if_neg h', if_neg (by omega)]
    · rw [if_neg h, if_neg (by omega)]

def pairsCost {α : Type} (cost : α → α → Nat) (xs : List α) : Nat :=
  total ((pairs xs).map fun p => cost p.1 p.2)

theorem pairsCost_cons {α : Type} (cost : α → α → Nat) (x : α) (xs : List α) :
    pairsCost cost (x :: xs) = total (xs.map (cost x)) + pairsCost cost xs := by
  simp only [pairsCost, pairs_cons, List.map_append, List.map_map, total_append]
  rfl

/-- The budget lasts exactly when it covers the cost of all pairs together. -/
theorem spendPairs_eq {α : Type} (cost : α → α → Nat) (xs : List α) (room : Nat) :
    spendPairs cost xs room =
      if pairsCost cost xs ≤ room then some (room - pairsCost cost xs) else none := by
  induction xs generalizing room with
  | nil => simp [spendPairs, pairsCost, total]
  | cons x xs ih =>
    rw [spendPairs, spend_eq, pairsCost_cons]
    by_cases h : total (xs.map (cost x)) ≤ room
    · rw [if_pos h, Option.bind_some, ih]
      by_cases h' : pairsCost cost xs ≤ room - total (xs.map (cost x))
      · rw [if_pos h', if_pos (by omega), Nat.sub_add_eq]
      · rw [if_neg h', if_neg (by omega)]
    · rw [if_neg h, if_neg (by omega)]
      rfl

end EnumMacros
