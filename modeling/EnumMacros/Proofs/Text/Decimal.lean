import EnumMacros.Identifier.Alphabet
import EnumMacros.Text.Numeral
import Mathlib.Algebra.Group.Nat.Defs

/-! Decimal numerals as they are written: digits only, at least one, and another numeral for every
other number. Numerals of one length that begin with the same digits have only such numerals between
them, `starts_between`; on both sides of a power of ten numerals begin differently,
`eq_nil_of_starts_all`. -/

namespace EnumMacros.Text

theorem toList_decimal (n : Nat) : (decimal n).toList = Nat.toDigits 10 n := Nat.toList_repr

theorem isDigit_of_mem_decimal {n : Nat} {c : Char} (h : c ∈ (decimal n).toList) :
    c.isDigit = true := by
  rw [toList_decimal] at h
  exact Nat.isDigit_of_mem_toDigits (by decide) (by decide) h

theorem toList_decimal_ne_nil (n : Nat) : (decimal n).toList ≠ [] := by
  rw [toList_decimal]
  exact Nat.toDigits_ne_nil

theorem toDigits_injective {n m : Nat} (h : Nat.toDigits 10 n = Nat.toDigits 10 m) : n = m := by
  rw [← Nat.ofDigitChars_toDigits (b := 10) (n := n) (by decide) (by decide), h,
    Nat.ofDigitChars_toDigits (by decide) (by decide)]

theorem decimal_injective {n m : Nat} (h : decimal n = decimal m) : n = m := by
  have same := congrArg String.toList h
  rw [toList_decimal, toList_decimal] at same
  exact toDigits_injective same

theorem lt_pow_length_toDigits (n : Nat) : n < 10 ^ (Nat.toDigits 10 n).length :=
  (Nat.length_toDigits_le_iff (by decide) Nat.length_toDigits_pos).1 (Nat.le_refl _)

/-- A number one larger has at most one digit more. -/
theorem length_toDigits_succ_le (n : Nat) :
    (Nat.toDigits 10 (n + 1)).length ≤ (Nat.toDigits 10 n).length + 1 := by
  rw [Nat.length_toDigits_le_iff (by decide) (Nat.succ_pos _), Nat.pow_succ]
  have := lt_pow_length_toDigits n
  omega

theorem isWordChar_of_isDigit {c : Char} (h : c.isDigit = true) :
    Identifier.isWordChar c = true := by
  simp only [Char.isDigit, Bool.and_eq_true, decide_eq_true_eq] at h
  by_cases zero : c = '0'
  · subst zero
    decide
  · have digit : '1' ≤ c ∧ c ≤ '9' := by
      refine ⟨?_, h.2⟩
      have different : c.toNat ≠ 48 := fun same => zero (Char.toNat_inj.1 same)
      have above : 48 ≤ c.toNat := h.1
      exact Char.le_def.2 (show (49 : Nat) ≤ c.toNat by omega)
    rw [Identifier.isWordChar, Identifier.digit?, if_pos digit]
    repeat' split
    all_goals rfl

/-- Digits come last in the alphabet, so none of them opens an identifier. -/
theorem isWordStart_of_isDigit {c : Char} (h : c.isDigit = true) :
    Identifier.isWordStart c = false := by
  simp only [Char.isDigit, Bool.and_eq_true, decide_eq_true_eq] at h
  have small : ¬('a' ≤ c ∧ c ≤ 'z') := fun letter => absurd (Char.le_trans letter.1 h.2) (by decide)
  have capital : ¬('A' ≤ c ∧ c ≤ 'Z') := fun letter =>
    absurd (Char.le_trans letter.1 h.2) (by decide)
  have word : c ≠ '_' := by
    rintro rfl
    exact absurd h.2 (by decide)
  rw [Identifier.isWordStart, Identifier.digit?, if_neg small, if_neg capital, if_neg word]
  split
  · change decide (c.toNat - 49 + 53 ≤ 52) = false
    rw [decide_eq_false_iff_not]
    omega
  · split <;> rfl

/-! ### The first digits of a number -/

theorem length_toDigits_mono {n m : Nat} (le : n ≤ m) :
    (Nat.toDigits 10 n).length ≤ (Nat.toDigits 10 m).length :=
  (Nat.length_toDigits_le_iff (by decide) Nat.length_toDigits_pos).2
    (Nat.lt_of_le_of_lt le (lt_pow_length_toDigits m))

theorem length_toDigits_div {n : Nat} (large : 10 ≤ n) :
    (Nat.toDigits 10 n).length = (Nat.toDigits 10 (n / 10)).length + 1 := by
  rw [Nat.toDigits_of_base_le (by decide) large, List.length_append, List.length_singleton]

theorem starts_div {digits : List Char} {n : Nat} (starts : digits <+: Nat.toDigits 10 n)
    (shorter : digits ≠ Nat.toDigits 10 n) (large : 10 ≤ n) :
    digits <+: Nat.toDigits 10 (n / 10) := by
  rw [Nat.toDigits_of_base_le (by decide) large] at starts shorter
  exact (List.prefix_concat_iff.1 starts).resolve_left shorter

/-- What two numbers with the same number of digits begin with, all numbers between them begin
with. -/
theorem starts_between {digits : List Char} {a b : Nat} (left : digits <+: Nat.toDigits 10 a)
    (right : digits <+: Nat.toDigits 10 b)
    (same : (Nat.toDigits 10 a).length = (Nat.toDigits 10 b).length) {n : Nat} (above : a ≤ n)
    (below : n ≤ b) : digits <+: Nat.toDigits 10 n := by
  -- one digit is taken off the end of all three, until the digits are all that is left of the ends
  induction b using Nat.strongRecOn generalizing a n with
  | ind b ih =>
    by_cases whole : digits.length = (Nat.toDigits 10 a).length
    · have ends : Nat.toDigits 10 a = Nat.toDigits 10 b :=
        (left.eq_of_length whole).symm.trans (right.eq_of_length (whole.trans same))
      obtain rfl : n = a := Nat.le_antisymm (toDigits_injective ends ▸ below) above
      exact left
    · have shorter_a : digits ≠ Nat.toDigits 10 a := fun all => whole (by rw [all])
      have shorter_b : digits ≠ Nat.toDigits 10 b := fun all => whole (by rw [all, same])
      by_cases large : 10 ≤ a
      · have large_n : 10 ≤ n := Nat.le_trans large above
        have large_b : 10 ≤ b := Nat.le_trans large_n below
        rw [length_toDigits_div large, length_toDigits_div large_b] at same
        have shortened : digits <+: Nat.toDigits 10 (n / 10) :=
          ih (b / 10) (by omega) (starts_div left shorter_a large)
            (starts_div right shorter_b large_b) (Nat.succ.inj same)
            (Nat.div_le_div_right above) (Nat.div_le_div_right below)
        rw [Nat.toDigits_of_base_le (by decide) large_n]
        exact shortened.trans (List.prefix_append _ _)
      · rw [Nat.toDigits_of_lt_base (Nat.lt_of_not_le large)] at left shorter_a
        have none : digits <+: [] := (List.prefix_concat_iff.1
          (show digits <+: [] ++ [Nat.digitChar a] from left)).resolve_left shorter_a
        rw [List.prefix_nil.1 none]
        exact List.nil_prefix

theorem head?_toDigits_div {n : Nat} (large : 10 ≤ n) :
    (Nat.toDigits 10 n).head? = (Nat.toDigits 10 (n / 10)).head? := by
  obtain ⟨c, cs, digits⟩ := List.exists_cons_of_ne_nil
    (Nat.toDigits_ne_nil : Nat.toDigits 10 (n / 10) ≠ [])
  rw [Nat.toDigits_of_base_le (by decide) large, digits]
  rfl

theorem head?_toDigits_pow (k : Nat) : (Nat.toDigits 10 (10 ^ k)).head? = some '1' := by
  induction k with
  | zero => rfl
  | succ k ih =>
    have positive : 0 < 10 ^ k := Nat.pow_pos (by decide)
    rw [Nat.pow_succ, head?_toDigits_div (by omega), Nat.mul_div_cancel _ (by decide), ih]

/-- Before a power of ten there are nines. -/
theorem head?_toDigits_pred_pow (k : Nat) :
    (Nat.toDigits 10 (10 ^ (k + 1) - 1)).head? = some '9' := by
  induction k with
  | zero => rfl
  | succ k ih =>
    have positive : 0 < 10 ^ k := Nat.pow_pos (by decide)
    have shortened : (10 ^ (k + 2) - 1) / 10 = 10 ^ (k + 1) - 1 := by
      rw [Nat.pow_succ 10 (k + 1), Nat.pow_succ]
      omega
    rw [head?_toDigits_div (by rw [Nat.pow_succ, Nat.pow_succ]; omega), shortened, ih]

/-- Where numbers grow longer, they pass a power of ten. -/
theorem exists_pow_between {a b : Nat} (le : a ≤ b)
    (grows : (Nat.toDigits 10 a).length ≠ (Nat.toDigits 10 b).length) :
    ∃ k, a < 10 ^ (k + 1) ∧ 10 ^ (k + 1) ≤ b := by
  obtain ⟨k, length⟩ : ∃ k, (Nat.toDigits 10 a).length = k + 1 :=
    Nat.exists_eq_succ_of_ne_zero (Nat.ne_of_gt Nat.length_toDigits_pos)
  refine ⟨k, length ▸ lt_pow_length_toDigits a, ?_⟩
  have longer : ¬(Nat.toDigits 10 b).length ≤ k + 1 := by
    have mono := length_toDigits_mono le
    omega
  rw [Nat.length_toDigits_le_iff (by decide) (Nat.succ_pos k)] at longer
  exact Nat.le_of_not_lt longer

/-- There is nothing that numbers begin with on both sides of a power of ten. -/
theorem eq_nil_of_starts_all {a b : Nat} {digits : List Char} (le : a ≤ b)
    (grows : (Nat.toDigits 10 a).length ≠ (Nat.toDigits 10 b).length)
    (starts : ∀ n, a ≤ n → n ≤ b → digits <+: Nat.toDigits 10 n) : digits = [] := by
  obtain ⟨k, below, above⟩ := exists_pow_between le grows
  cases digits with
  | nil => rfl
  | cons c cs =>
    obtain ⟨_, one, -⟩ := List.cons_prefix_iff.1 (starts (10 ^ (k + 1)) (by omega) above)
    obtain ⟨_, nine, -⟩ :=
      List.cons_prefix_iff.1 (starts (10 ^ (k + 1) - 1) (by omega) (by omega))
    have c_one := head?_toDigits_pow (k + 1)
    have c_nine := head?_toDigits_pred_pow k
    rw [one, List.head?_cons, Option.some.injEq] at c_one
    rw [nine, List.head?_cons, Option.some.injEq, c_one] at c_nine
    exact absurd c_nine (by decide)

end EnumMacros.Text
