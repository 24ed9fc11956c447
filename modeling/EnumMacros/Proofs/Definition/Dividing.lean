import EnumMacros.Definition.Parts
import Mathlib.Data.List.Nodup

/-! Dividing the pairs of a list. Its elements fall into three parts, and whatever pair of elements
is taken, two of the parts hold both of them; so the pairs of the list are those of every two of its
parts. From three elements on, two parts have at least two elements and fewer than the list. -/

namespace EnumMacros

variable {α β : Type}

theorem mem_of_mem_pairs {xs : List α} {p : α × α} (h : p ∈ pairs xs) : p.1 ∈ xs ∧ p.2 ∈ xs := by
  induction xs with
  | nil => exact absurd h List.not_mem_nil
  | cons x xs ih =>
    rw [pairs_cons, List.mem_append, List.mem_map] at h
    rcases h with ⟨y, member, rfl⟩ | later
    · exact ⟨List.mem_cons_self, List.mem_cons_of_mem x member⟩
    · exact (ih later).imp (List.mem_cons_of_mem x) (List.mem_cons_of_mem x)

theorem pairs_map (f : α → β) (xs : List α) :
    pairs (xs.map f) = (pairs xs).map (Prod.map f f) := by
  induction xs with
  | nil => rfl
  | cons x xs ih =>
    rw [List.map_cons, pairs_cons, pairs_cons, ih, List.map_append, List.map_map, List.map_map]
    rfl

/-- A pair of a list made of two lies in one of them, or starts in the first and ends in the
second. -/
theorem mem_pairs_append {xs ys : List α} {p : α × α} :
    p ∈ pairs (xs ++ ys) ↔ p ∈ pairs xs ∨ p ∈ pairs ys ∨ p.1 ∈ xs ∧ p.2 ∈ ys := by
  induction xs with
  | nil => simp
  | cons x xs ih =>
    simp only [List.cons_append, pairs_cons, List.mem_append, List.mem_map, List.mem_cons, ih,
      Prod.ext_iff]
    grind

/-- In increasing order, the pairs are those of a smaller and a larger number. -/
theorem mem_pairs_range {n i j : Nat} : (i, j) ∈ pairs (List.range n) ↔ i < j ∧ j < n := by
  induction n with
  | zero => simp
  | succ n ih =>
    rw [List.range_succ, mem_pairs_append, ih]
    simp only [pairs_cons, pairs_nil, List.map_nil, List.append_nil, List.not_mem_nil, false_or,
      List.mem_range, List.mem_singleton]
    omega

/-- The three parts follow each other, and their lengths are as equal as they can be. -/
theorem parts_eq (n : Nat) :
    ∃ a b c, parts n = [⟨0, a⟩, ⟨a, b⟩, ⟨a + b, c⟩] ∧
      a + b + c = n ∧ c ≤ b ∧ b ≤ a ∧ a ≤ c + 1 := by
  refine ⟨(n + 2) / 3, (n + 1) / 3, n / 3, ?_, by omega, by omega, by omega, by omega⟩
  have division : parts n = [⟨0 * (n / 3) + min 0 (n % 3), n / 3 + if 0 < n % 3 then 1 else 0⟩,
      ⟨1 * (n / 3) + min 1 (n % 3), n / 3 + if 1 < n % 3 then 1 else 0⟩,
      ⟨2 * (n / 3) + min 2 (n % 3), n / 3 + if 2 < n % 3 then 1 else 0⟩] := rfl
  rw [division]
  obtain none | one | two : n % 3 = 0 ∨ n % 3 = 1 ∨ n % 3 = 2 := by omega
  · simp [none]
    omega
  · simp [one]
    omega
  · simp [two]
    omega

/-- The positions of a run, in order. -/
def Run.positions (r : Run) : List Nat := List.range' r.start r.length

/-- One after the other, the parts go through all positions. -/
theorem flatMap_positions_parts (n : Nat) : (parts n).flatMap Run.positions = List.range n := by
  obtain ⟨a, b, c, divided, whole, -⟩ := parts_eq n
  have last_two : List.range' a b ++ List.range' (a + b) c = List.range' a (b + c) :=
    List.range'_append_1
  have all : List.range' 0 a ++ List.range' (0 + a) (b + c) = List.range' 0 (a + (b + c)) :=
    List.range'_append_1
  rw [Nat.zero_add] at all
  simp only [divided, List.flatMap_cons, List.flatMap_nil, List.append_nil, Run.positions, last_two,
    all]
  rw [← Nat.add_assoc, whole, List.range_eq_range']

/-- Three runs divide the positions below `n`. The first starts at position zero and each other one
where the one before it ends, no position is in two of them, every position is in one of them, and
their lengths differ by one at most. -/
structure Divides (runs : List Run) (n : Nat) : Prop where
  count : runs.length = 3
  starts : ∀ r ∈ runs.head?, r.start = 0
  consecutive : runs.IsChain fun q r => q.start + q.length = r.start
  disjoint : runs.Pairwise fun q r => q.positions.Disjoint r.positions
  covers : ∀ i, (∃ r ∈ runs, i ∈ r.positions) ↔ i < n
  balanced : ∀ q ∈ runs, ∀ r ∈ runs, q.length ≤ r.length + 1

theorem divides_parts (n : Nat) : Divides (parts n) n := by
  have positions := flatMap_positions_parts n
  obtain ⟨a, b, c, divided, whole, hc, hb, ha⟩ := parts_eq n
  exact {
    count := length_parts n
    starts := by simp [divided]
    consecutive := by simp [divided]
    disjoint := by
      have once : ((parts n).flatMap Run.positions).Nodup := by
        rw [positions]
        exact List.nodup_range
      exact (List.nodup_flatMap.1 once).2
    covers := fun i => by rw [← List.mem_flatMap, positions, List.mem_range]
    balanced := by
      have bounds : ∀ r ∈ parts n, c ≤ r.length ∧ r.length ≤ c + 1 := by
        simp only [divided, List.forall_mem_cons, List.not_mem_nil, false_implies, implies_true,
          and_true]
        omega
      intro q first r second
      exact Nat.le_trans (bounds q first).2 (Nat.add_le_add_right (bounds r second).1 1) }

theorem members_parts {a b c : Nat} {xs : List α} (h : xs.length = a + b + c) :
    (⟨0, a⟩ : Run).members xs ++ ((⟨a, b⟩ : Run).members xs ++ (⟨a + b, c⟩ : Run).members xs) =
      xs := by
  have last : (⟨a + b, c⟩ : Run).members xs = xs.drop (a + b) := by
    apply List.take_of_length_le
    simp only [List.length_drop]
    omega
  have middle : (⟨a, b⟩ : Run).members xs ++ xs.drop (a + b) = xs.drop a := by
    rw [Run.members, ← List.drop_drop, List.take_append_drop]
  rw [last, middle]
  exact List.take_append_drop a xs

/-- Every pair of a list is one of two of its parts. -/
theorem mem_pairs_iff_parts {xs : List α} {p : α × α} :
    p ∈ pairs xs ↔
      ∃ qr ∈ pairs (parts xs.length), p ∈ pairs (qr.1.members xs ++ qr.2.members xs) := by
  obtain ⟨a, b, c, divided, whole, -⟩ := parts_eq xs.length
  have joined := members_parts whole.symm
  rw [divided]
  simp only [pairs_cons, pairs_nil, List.map_cons, List.map_nil, List.append_nil,
    List.cons_append, List.nil_append, List.mem_cons, List.not_mem_nil, or_false,
    exists_eq_or_imp, exists_eq_left]
  conv_lhs => rw [← joined]
  simp only [mem_pairs_append, List.mem_append]
  grind

theorem Run.length_members {r : Run} {xs : List α} (h : r.start + r.length ≤ xs.length) :
    (r.members xs).length = r.length := by
  rw [members, List.length_take, List.length_drop]
  omega

theorem Run.members_map (f : α → β) (r : Run) (xs : List α) :
    r.members (xs.map f) = (r.members xs).map f := by
  rw [members, members, List.map_take, List.map_drop]

/-- Two parts together have about two thirds of the elements. -/
theorem length_of_mem_pairs_parts {n : Nat} {qr : Run × Run} (h : qr ∈ pairs (parts n)) :
    (n * 2 / 3 ≤ qr.1.length + qr.2.length ∧ qr.1.length + qr.2.length ≤ (2 * n + 2) / 3) ∧
      qr.1.start + qr.1.length ≤ n ∧ qr.2.start + qr.2.length ≤ n := by
  obtain ⟨a, b, c, divided, whole, hc, hb, ha⟩ := parts_eq n
  rw [divided] at h
  simp only [pairs_cons, pairs_nil, List.map_cons, List.map_nil, List.append_nil,
    List.cons_append, List.nil_append, List.mem_cons, List.not_mem_nil, or_false] at h
  rcases h with rfl | rfl | rfl
  all_goals simp only; omega

end EnumMacros
