import EnumMacros.Header.Tree
import EnumMacros.Proofs.Definition.Measuring
import Mathlib.Order.Interval.Set.Basic

/-! The bounds of what the checks of a header call. A check of size `n` may call the checks of all
sizes from two thirds of `n` rounded down to two thirds rounded up. The next size starts where this
one ends, or one later, so over a range of sizes no gap is left, and the bounds that a header looks
up are met exactly: `called_fills_bounds`. -/

namespace EnumMacros.Tree

variable {n k : Nat}

/-- The sizes called over a range leave no gap. -/
theorem exists_mem_calleeSizes_iff {first last : Nat} (forward : first ≤ last) :
    (∃ n, first ≤ n ∧ n ≤ last ∧ k ∈ Composer.calleeSizes n) ↔
      2 * first / 3 ≤ k ∧ k ≤ (2 * last + 2) / 3 := by
  simp only [mem_calleeSizes_iff]
  constructor
  · rintro ⟨n, after, before, least, greatest⟩
    omega
  · rintro ⟨least, greatest⟩
    -- A check of half as much again calls this size; out of range, its nearer end does.
    refine ⟨max first (min last (3 * k / 2)), ?_⟩
    omega

theorem leastCallee_of_le (large : 3 ≤ n) : leastCallee n = 2 * n / 3 := by
  rw [leastCallee]
  omega

theorem greatestCallee_of_le (large : 3 ≤ n) : greatestCallee n = (2 * n + 2) / 3 := by
  rw [greatestCallee]
  omega

theorem called?_distinct {first last : Nat} (forward : first ≤ last) :
    called? .distinct ⟨first, last⟩ = some ⟨leastCallee first, greatestCallee last⟩ := by
  have ordered : leastCallee first ≤ greatestCallee last := by
    rw [leastCallee, greatestCallee]
    omega
  exact if_pos ordered

/-- For the checks of a range of sizes, a header looks up an interval, and the sizes of any two
parts together, for all sizes in the range, are exactly the numbers of this interval. The parts of a
size divide its positions as evenly as can be, so from size three on, a check calls smaller ones, of
two parameters at least. -/
theorem called_fills_bounds {first last : Nat} (large : 3 ≤ first) (forward : first ≤ last) :
    called? .distinct ⟨first, last⟩ = some ⟨leastCallee first, greatestCallee last⟩ ∧
    {k | ∃ n, first ≤ n ∧ n ≤ last ∧ ∃ q r, (q, r) ∈ pairs (parts n) ∧ q.length + r.length = k} =
      Set.Icc (leastCallee first) (greatestCallee last) ∧
    ∀ n, Divides (parts n) n ∧
      (3 ≤ n → ∀ q r, (q, r) ∈ pairs (parts n) →
        2 ≤ q.length + r.length ∧ q.length + r.length < n) := by
  refine ⟨called?_distinct forward, ?interval, fun n => ⟨divides_parts n, ?smaller⟩⟩
  case interval =>
    ext k
    rw [Set.mem_Icc, leastCallee_of_le large, greatestCallee_of_le (large.trans forward),
      ← exists_mem_calleeSizes_iff forward]
    simp only [Set.mem_ofPred_eq, Composer.calleeSizes_eq_map, List.mem_map, Prod.exists]
  case smaller =>
    intro least q r member
    have two_thirds := (length_of_mem_pairs_parts member).1
    simp only at two_thirds
    omega

/-- The sizes of this range leave every remainder by three. -/
theorem called_fills_bounds_from_four :
    (3 ≤ 4 ∧ 4 ≤ 6) ∧ called? .distinct ⟨4, 6⟩ = some ⟨2, 4⟩ ∧
      {k | ∃ n, 4 ≤ n ∧ n ≤ 6 ∧ ∃ q r, (q, r) ∈ pairs (parts n) ∧ q.length + r.length = k} =
        Set.Icc 2 4 ∧
      Divides (parts 5) 5 ∧
      ∀ q r, (q, r) ∈ pairs (parts 5) → 2 ≤ q.length + r.length ∧ q.length + r.length < 5 := by
  obtain ⟨called, interval, divided⟩ :=
    called_fills_bounds (show 3 ≤ 4 by decide) (show 4 ≤ 6 by decide)
  exact ⟨⟨by decide, by decide⟩, called, interval, (divided 5).1, (divided 5).2 (by decide)⟩

end EnumMacros.Tree
