import EnumMacros.Proofs.Identifier.Correspondence
import EnumMacros.Proofs.Identifier.Ordering
import Mathlib.Data.List.Basic

/-! The order of names on all texts, identifiers or not. The ranks of symbols lie below those of all
other characters, so no two characters share a rank and a text is given back by the ranks of its
characters. Names compare as the lengths and then the ranks of their texts do, which makes their
order total: `compareNames_total`. Of the names of raw indices it is the order of generation, on the
whole space of raw indices: `compareNames_spell?`. -/

namespace EnumMacros.Identifier

theorem rank_of_digit? {c : Char} {d : Nat} (h : digit? c = some d) : rank c = d := by
  rw [rank, h, Option.getD_some]

theorem rank_of_none {c : Char} (h : digit? c = none) : rank c = c.toNat + base := by
  rw [rank, h, Option.getD_none]

theorem rank_injective : Function.Injective rank := by
  intro c c' same
  cases symbol : digit? c with
  | some d =>
    obtain ⟨small, spelled⟩ := digit?_eq_some_iff.1 symbol
    cases symbol' : digit? c' with
    | some d' =>
      obtain ⟨-, spelled'⟩ := digit?_eq_some_iff.1 symbol'
      rw [rank_of_digit? symbol, rank_of_digit? symbol'] at same
      rw [← spelled, ← spelled', same]
    | none =>
      rw [rank_of_digit? symbol, rank_of_none symbol'] at same
      omega
  | none =>
    cases symbol' : digit? c' with
    | some d' =>
      obtain ⟨small, -⟩ := digit?_eq_some_iff.1 symbol'
      rw [rank_of_none symbol, rank_of_digit? symbol'] at same
      omega
    | none =>
      rw [rank_of_none symbol, rank_of_none symbol'] at same
      exact Char.toNat_inj.1 (Nat.add_right_cancel same)

/-- The ranks of a text's characters. -/
def ranks (text : String) : List Nat := text.toList.map rank

theorem ranks_injective : Function.Injective ranks :=
  (List.map_injective_iff.2 rank_injective).comp fun _ _ => String.toList_inj.1

/-- Texts of one length compare as their ranks do, by the first difference. -/
theorem compareChars_eq {cs ds : List Char} (length : cs.length = ds.length) :
    compareChars cs ds = compare (cs.map rank) (ds.map rank) := by
  induction cs generalizing ds with
  | nil =>
    obtain rfl : ds = [] := List.length_eq_zero_iff.1 length.symm
    rfl
  | cons c cs ih =>
    match ds, length with
    | d :: ds, length =>
      rw [compareChars, List.map_cons, List.map_cons, List.compare_cons_cons]
      by_cases same : c = d
      · subst same
        rw [if_pos rfl, Nat.compare_eq_eq.2 rfl]
        exact ih (Nat.succ.inj length)
      · have differ : rank c ≠ rank d := fun h => same (rank_injective h)
        rw [if_neg same]
        rcases Nat.lt_or_gt_of_ne differ with lt | gt
        · rw [Nat.compare_eq_lt.2 lt]
          rfl
        · rw [Nat.compare_eq_gt.2 gt]
          rfl

/-- Names compare by length, and at equal lengths by the ranks of their characters. -/
theorem compareNames_eq (a b : String) :
    compareNames a b = compareLex (compareOn String.length) (compareOn ranks) a b := by
  have lengths : a.toList.length = a.length ∧ b.toList.length = b.length :=
    ⟨String.length_toList, String.length_toList⟩
  rw [compareNames, compareLex, compareOn, compareOn, lengths.1, lengths.2]
  split_ifs with same
  · subst same
    rw [Nat.compare_eq_eq.2 rfl]
    exact Std.ReflCmp.compare_self.symm
  · by_cases length : a.length = b.length
    · rw [Nat.compare_eq_eq.2 length]
      exact compareChars_eq (lengths.1.trans (length.trans lengths.2.symm))
    · rcases Nat.lt_or_gt_of_ne length with lt | gt
      · rw [Nat.compare_eq_lt.2 lt]
        rfl
      · rw [Nat.compare_eq_gt.2 gt]
        rfl

/-- Orientation and transitivity come from the order of lengths and of lists of ranks. -/
instance : Std.TransCmp compareNames where
  eq_swap {a b} := by
    rw [compareNames_eq, compareNames_eq]
    exact Std.OrientedCmp.eq_swap
  isLE_trans {a b c} hab hbc := by
    rw [compareNames_eq] at hab hbc ⊢
    exact Std.TransCmp.isLE_trans hab hbc

instance : Std.LawfulEqCmp compareNames where
  eq_of_compare {a b} h := by
    rw [compareNames_eq, compareLex, Ordering.then_eq_eq] at h
    exact ranks_injective (Std.LawfulEqCmp.eq_of_compare h.2)

/-- Names come out of sorting in order. -/
theorem pairwise_sortNames (names : List String) :
    (sortNames names).Pairwise fun a b => (compareNames a b).isLE = true := by
  refine List.pairwise_mergeSort (fun a b c => Std.TransCmp.isLE_trans) (fun a b => ?_) names
  have swapped : compareNames b a = (compareNames a b).swap := Std.OrientedCmp.eq_swap
  rw [swapped]
  cases compareNames a b <;> rfl

/-- The order of names is total on all texts: only equal texts compare as equal, the comparison the
other way round gives the reverse, and what is not after a text is not after any that follows it. -/
theorem compareNames_total (a b c : String) :
    (compareNames a b = .eq ↔ a = b) ∧ compareNames b a = (compareNames a b).swap ∧
      (compareNames a b ≠ .gt → compareNames b c ≠ .gt → compareNames a c ≠ .gt) := by
  refine ⟨Std.LawfulEqCmp.compare_eq_iff_eq, Std.OrientedCmp.eq_swap, ?_⟩
  simp only [Ordering.ne_gt_iff_isLE]
  exact Std.TransCmp.isLE_trans

/-- A symbol stands before all other characters, also before those of a smaller code point. -/
theorem compareNames_total_of_mixed :
    compareNames "a0" "a!" = .lt ∧ compareNames "a!" "é0" = .lt ∧ compareNames "a0" "é0" ≠ .gt := by
  have first : compareNames "a0" "a!" = .lt := by decide +kernel
  have second : compareNames "a!" "é0" = .lt := by decide +kernel
  exact ⟨first, second, (compareNames_total "a0" "a!" "é0").2.2 (by rw [first]; decide)
    (by rw [second]; decide)⟩

/-! ### Names of raw indices -/

/-- Two raw indices in 128 bits both have names, and these compare as the indices do. -/
theorem compareNames_spell? {i j : Nat} (hi : i < indexLimit) (hj : j < indexLimit) :
    ∃ a b, spell? i = some a ∧ spell? j = some b ∧ compareNames a b = compare i j :=
  ⟨spell i, spell j, spell?_eq hi, spell?_eq hj, compareNames_spell i j⟩

/-- The zero is the last of the digits. -/
theorem compareNames_spell?_zero :
    113 < indexLimit ∧ 114 < indexLimit ∧ spell? 113 = some "a9" ∧ spell? 114 = some "a0" ∧
      compareNames "a9" "a0" = .lt := by
  have small : 113 < indexLimit ∧ 114 < indexLimit := by decide
  have nine : spell? 113 = some "a9" := by decide +kernel
  have zero : spell? 114 = some "a0" := by decide +kernel
  obtain ⟨a, b, first, second, order⟩ := compareNames_spell? small.1 small.2
  rw [nine, Option.some.injEq] at first
  rw [zero, Option.some.injEq] at second
  subst first second
  exact ⟨small.1, small.2, nine, zero, order⟩

/-- Names put in order are the names of their raw indices put in order. -/
theorem sortNames_map_spell (raws : List Nat) :
    sortNames (raws.map spell) = (raws.mergeSort (· ≤ ·)).map spell := by
  refine (List.map_mergeSort fun i _ j _ => ?_).symm
  rw [compareNames_spell, Bool.eq_iff_iff, decide_eq_true_eq, Nat.isLE_compare]

end EnumMacros.Identifier
