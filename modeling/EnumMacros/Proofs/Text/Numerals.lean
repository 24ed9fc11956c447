import EnumMacros.Proofs.Text.Decimal
import EnumMacros.Text.Pieces
import Mathlib.Data.List.DropRight

/-! Numerals as they are read. A numeral is a run of digits, with any number of zeros in front, and
may stand after a sign; the readers take exactly these and give their values, as long as they are
within bounds: `readBelow_eq_some_iff`, `readSigned_eq_some_iff`. Trimming takes off the blanks on
both sides of a text that has none at its ends. -/

namespace EnumMacros.Text

/-! ### Values -/

/-- A run of digits that stands for a number. -/
structure IsNumeral (cs : List Char) (n : Nat) : Prop where
  nonempty : cs ≠ []
  digits : ∀ c ∈ cs, c.isDigit = true
  value : Nat.ofDigitChars 10 cs 0 = n

instance (cs : List Char) (n : Nat) : Decidable (IsNumeral cs n) :=
  decidable_of_iff (cs ≠ [] ∧ cs.all Char.isDigit ∧ Nat.ofDigitChars 10 cs 0 = n)
    ⟨fun ⟨nonempty, digits, value⟩ => ⟨nonempty, List.all_eq_true.1 digits, value⟩,
      fun ⟨nonempty, digits, value⟩ => ⟨nonempty, List.all_eq_true.2 digits, value⟩⟩

/-- A numeral, or a plus and a numeral. -/
inductive IsUnsigned : List Char → Nat → Prop
  | plain {cs : List Char} {n : Nat} : IsNumeral cs n → IsUnsigned cs n
  | plus {cs : List Char} {n : Nat} : IsNumeral cs n → IsUnsigned ('+' :: cs) n

/-- An unsigned number, or a minus and a numeral. -/
inductive IsInteger : List Char → Int → Prop
  | unsigned {cs : List Char} {n : Nat} : IsUnsigned cs n → IsInteger cs n
  | minus {cs : List Char} {n : Nat} : IsNumeral cs n → IsInteger ('-' :: cs) (-n)

theorem isNumeral_toDigits (n : Nat) : IsNumeral (Nat.toDigits 10 n) n :=
  ⟨Nat.toDigits_ne_nil, fun _ => Nat.isDigit_of_mem_toDigits (by decide) (by decide),
    Nat.ofDigitChars_ten_toDigits⟩

theorem digitValue?_of_isDigit {c : Char} (h : c.isDigit = true) :
    digitValue? c = some (c.toNat - '0'.toNat) := by
  simp only [Char.isDigit, Bool.and_eq_true, decide_eq_true_eq] at h
  exact if_pos h

theorem isDigit_of_digitValue? {c : Char} {d : Nat} (h : digitValue? c = some d) :
    c.isDigit = true := by
  rw [digitValue?] at h
  split_ifs at h with between
  simp only [Char.isDigit, Bool.and_eq_true, decide_eq_true_eq]
  exact between

theorem readDigits_eq_some_iff {cs : List Char} {value n : Nat} :
    readDigits value cs = some n ↔
      (∀ c ∈ cs, c.isDigit = true) ∧ Nat.ofDigitChars 10 cs value = n := by
  induction cs generalizing value with
  | nil => simp [readDigits]
  | cons c cs ih =>
    rw [readDigits, List.forall_mem_cons, Nat.ofDigitChars_cons]
    constructor
    · intro read
      obtain ⟨d, digit, rest⟩ := Option.bind_eq_some_iff.1 read
      have isDigit := isDigit_of_digitValue? digit
      rw [digitValue?_of_isDigit isDigit] at digit
      obtain rfl := Option.some.inj digit
      obtain ⟨digits, same⟩ := ih.1 rest
      exact ⟨⟨isDigit, digits⟩, same⟩
    · rintro ⟨⟨isDigit, digits⟩, same⟩
      rw [digitValue?_of_isDigit isDigit, Option.bind_some]
      exact ih.2 ⟨digits, same⟩

theorem readNumeral_eq_some_iff {cs : List Char} {n : Nat} :
    readNumeral cs = some n ↔ IsNumeral cs n := by
  cases cs with
  | nil => exact ⟨nofun, fun numeral => absurd rfl numeral.nonempty⟩
  | cons c cs =>
    rw [readNumeral, readDigits_eq_some_iff]
    constructor
    · rintro ⟨digits, value⟩
      exact ⟨List.cons_ne_nil c cs, digits, value⟩
    · rintro ⟨_, digits, value⟩
      exact ⟨digits, value⟩

/-- A numeral does not begin with a sign. -/
theorem not_isNumeral_cons {c : Char} (sign : c.isDigit = false) (cs : List Char) (n : Nat) :
    ¬IsNumeral (c :: cs) n := fun numeral =>
  Bool.eq_false_iff.1 sign (numeral.digits c List.mem_cons_self)

theorem below_eq_some_iff {limit value n : Nat} :
    below limit value = some n ↔ value = n ∧ n < limit := by
  rw [below]
  split_ifs with small
  · rw [Option.some.injEq]
    exact ⟨fun same => ⟨same, same ▸ small⟩, And.left⟩
  · exact ⟨nofun, fun ⟨same, bound⟩ => absurd (same ▸ bound) small⟩

theorem readNumeral_bind_below {limit n : Nat} {cs : List Char} :
    (readNumeral cs).bind (below limit) = some n ↔ IsNumeral cs n ∧ n < limit := by
  simp only [Option.bind_eq_some_iff, readNumeral_eq_some_iff, below_eq_some_iff]
  constructor
  · rintro ⟨value, numeral, rfl, small⟩
    exact ⟨numeral, small⟩
  · exact fun ⟨numeral, small⟩ => ⟨n, numeral, rfl, small⟩

theorem readBelow_eq_some_iff {limit n : Nat} {cs : List Char} :
    readBelow limit cs = some n ↔ IsUnsigned cs n ∧ n < limit := by
  rw [readBelow.eq_def]
  split
  · next digits =>
    rw [readNumeral_bind_below]
    refine and_congr_left fun _ => ⟨.plus, fun unsigned => ?_⟩
    cases unsigned with
    | plain numeral => exact absurd numeral (not_isNumeral_cons (by decide) _ _)
    | plus numeral => exact numeral
  · next digits unsigned =>
    rw [readNumeral_bind_below]
    refine and_congr_left fun _ => ⟨.plain, fun signed => ?_⟩
    cases signed with
    | plain numeral => exact numeral
    | plus numeral => exact absurd rfl (unsigned _)

theorem map_cast_eq_some_iff {x : Option Nat} {f : Int → Int} {i : Int} :
    Option.map f (do let n ← x; pure (n : Int)) = some i ↔ ∃ n, x = some n ∧ f n = i := by
  cases x <;> simp

/-- In an integer type the least number is one further from zero than the greatest. -/
theorem readSigned_eq_some_iff {limit : Nat} (positive : 0 < limit) {i : Int} {cs : List Char} :
    readSigned limit cs = some i ↔ IsInteger cs i ∧ -(limit : Int) ≤ i ∧ i < limit := by
  rw [readSigned.eq_def]
  split
  · next digits =>
    simp only [map_cast_eq_some_iff, readNumeral_bind_below]
    constructor
    · rintro ⟨n, ⟨numeral, small⟩, rfl⟩
      exact ⟨.minus numeral, by omega, by omega⟩
    · rintro ⟨integer, least, -⟩
      cases integer with
      | minus numeral => exact ⟨_, ⟨numeral, by omega⟩, rfl⟩
      | unsigned unsigned =>
        cases unsigned with
        | plain numeral => exact absurd numeral (not_isNumeral_cons (by decide) _ _)
  · next digits unsigned =>
    simp only [map_cast_eq_some_iff, readBelow_eq_some_iff]
    constructor
    · rintro ⟨n, ⟨unsigned, small⟩, rfl⟩
      exact ⟨.unsigned unsigned, by omega, by omega⟩
    · rintro ⟨integer, -, small⟩
      cases integer with
      | unsigned unsigned => exact ⟨_, ⟨unsigned, by omega⟩, rfl⟩
      | minus numeral => exact absurd rfl (unsigned _)

/-! ### Blanks -/

/-- A run of blanks. -/
def AreBlanks (cs : List Char) : Prop := ∀ c ∈ cs, isBlank c = true

instance (cs : List Char) : Decidable (AreBlanks cs) :=
  decidable_of_iff (cs.all isBlank) List.all_eq_true

theorem isBlank_of_isDigit {c : Char} (h : c.isDigit = true) : isBlank c = false := by
  simp only [Char.isDigit, Bool.and_eq_true, decide_eq_true_eq] at h
  have low : 48 ≤ c.toNat := h.1
  have high : c.toNat ≤ 57 := h.2
  simp only [isBlank, blankRanges, List.any_cons, List.any_nil, Bool.or_false, Bool.or_eq_false_iff,
    Bool.and_eq_false_iff, decide_eq_false_iff_not]
  omega

theorem IsUnsigned.nonempty {cs : List Char} {n : Nat} (h : IsUnsigned cs n) : cs ≠ [] := by
  cases h with
  | plain numeral => exact numeral.nonempty
  | plus numeral => exact List.cons_ne_nil _ _

theorem IsUnsigned.mem {cs : List Char} {n : Nat} (h : IsUnsigned cs n) :
    ∀ c ∈ cs, c = '+' ∨ c.isDigit = true := by
  cases h with
  | plain numeral => exact fun c member => .inr (numeral.digits c member)
  | plus numeral =>
    exact List.forall_mem_cons.2 ⟨.inl rfl, fun c member => .inr (numeral.digits c member)⟩

theorem IsUnsigned.isBlank {cs : List Char} {n : Nat} (h : IsUnsigned cs n) :
    ∀ c ∈ cs, isBlank c = false := fun c member =>
  (h.mem c member).elim (fun plus => plus ▸ by decide) isBlank_of_isDigit

/-- What is taken off a text is blank. -/
theorem exists_trimBlanks (cs : List Char) :
    ∃ before after, AreBlanks before ∧ AreBlanks after ∧
      cs = before ++ trimBlanks cs ++ after := by
  refine ⟨cs.takeWhile isBlank, (cs.dropWhile isBlank).rtakeWhile isBlank,
    fun c => List.mem_takeWhile_imp, fun c => List.mem_rtakeWhile_imp, ?_⟩
  show cs = cs.takeWhile isBlank ++ (cs.dropWhile isBlank).rdropWhile isBlank ++ _
  rw [List.append_assoc, List.rdropWhile_append_rtakeWhile, List.takeWhile_append_dropWhile]

/-- Nothing is taken off a text but the blanks around it. -/
theorem trimBlanks_append {before inner after : List Char} (left : AreBlanks before)
    (right : AreBlanks after) (nonempty : inner ≠ []) (solid : ∀ c ∈ inner, isBlank c = false) :
    trimBlanks (before ++ inner ++ after) = inner := by
  have starts : (inner ++ after).dropWhile isBlank = inner ++ after := by
    obtain ⟨c, cs, rfl⟩ := List.exists_cons_of_ne_nil nonempty
    rw [List.cons_append, List.dropWhile_cons_of_neg (by simp [solid c List.mem_cons_self])]
  have ends : inner.reverse.dropWhile isBlank = inner.reverse := by
    obtain ⟨c, cs, reversed⟩ := List.exists_cons_of_ne_nil (List.reverse_ne_nil_iff.2 nonempty)
    have last : c ∈ inner := List.mem_reverse.1 (by rw [reversed]; exact List.mem_cons_self)
    rw [reversed, List.dropWhile_cons_of_neg (by simp [solid c last])]
  rw [trimBlanks, List.append_assoc, List.dropWhile_append_of_pos left, starts,
    List.reverse_append,
    List.dropWhile_append_of_pos fun c member => right c (List.mem_reverse.1 member), ends,
    List.reverse_reverse]

theorem trimBlanks_eq_nil_iff {cs : List Char} : trimBlanks cs = [] ↔ AreBlanks cs := by
  constructor
  · intro empty
    obtain ⟨before, after, left, right, whole⟩ := exists_trimBlanks cs
    rw [whole, empty, List.append_nil]
    exact fun c member => (List.mem_append.1 member).elim (left c) (right c)
  · intro blanks
    rw [trimBlanks, List.dropWhile_eq_nil_iff.2 blanks]
    rfl

end EnumMacros.Text
