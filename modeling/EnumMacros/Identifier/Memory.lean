/-! What has been kept for some numbers. A memory is a tree of two branches: one for the odd
numbers, one for the even numbers above zero, and each branch holds what is kept for a number at
half of it. -/

namespace EnumMacros.Identifier

/-- Texts kept for some numbers. -/
inductive Memory
  | blank
  | node (zero : Option String) (odd even : Memory)
  deriving Repr, DecidableEq

namespace Memory

def zero : Memory → Option String
  | blank => none
  | node zero _ _ => zero

def odd : Memory → Memory
  | blank => blank
  | node _ odd _ => odd

def even : Memory → Memory
  | blank => blank
  | node _ _ even => even

def find? : Memory → Nat → Option String
  | blank, _ => none
  | node zero _ _, 0 => zero
  | node _ odd even, n + 1 => if n % 2 = 0 then odd.find? (n / 2) else even.find? (n / 2)

/-- Keeps a text for a number, in place of what was kept for it. -/
def keep (m : Memory) (n : Nat) (text : String) : Memory :=
  match n with
  | 0 => node (some text) m.odd m.even
  | n + 1 =>
    if n % 2 = 0 then node m.zero (m.odd.keep (n / 2) text) m.even
    else node m.zero m.odd (m.even.keep (n / 2) text)
termination_by n
decreasing_by all_goals omega

@[simp] theorem zero_node (kept : Option String) (o e : Memory) : (node kept o e).zero = kept := rfl

@[simp] theorem odd_node (kept : Option String) (o e : Memory) : (node kept o e).odd = o := rfl

@[simp] theorem even_node (kept : Option String) (o e : Memory) : (node kept o e).even = e := rfl

@[simp] theorem find?_blank (n : Nat) : blank.find? n = none := rfl

theorem find?_zero (m : Memory) : m.find? 0 = m.zero := by cases m <;> rfl

theorem find?_succ (m : Memory) (n : Nat) :
    m.find? (n + 1) = if n % 2 = 0 then m.odd.find? (n / 2) else m.even.find? (n / 2) := by
  cases m with
  | blank => simp [find?, odd, even]
  | node => rfl

/-- Only the number for which a text is kept has another one than before. -/
theorem find?_keep (m : Memory) (n k : Nat) (text : String) :
    (m.keep n text).find? k = if k = n then some text else m.find? k := by
  fun_induction keep m n text generalizing k with
  | case1 m =>
    cases k with
    | zero => rfl
    | succ k => rw [find?_succ, find?_succ, if_neg (Nat.succ_ne_zero k)]; rfl
  | case2 m n parity ih =>
    cases k with
    | zero => rw [find?_zero, find?_zero, if_neg (Nat.succ_ne_zero n).symm]; rfl
    | succ k =>
      rw [find?_succ, find?_succ, odd_node, even_node]
      by_cases other : k % 2 = 0
      · have same : k / 2 = n / 2 ↔ k + 1 = n + 1 := by omega
        rw [if_pos other, if_pos other, ih]
        simp only [same]
      · rw [if_neg other, if_neg other, if_neg (by omega)]
  | case3 m n parity ih =>
    cases k with
    | zero => rw [find?_zero, find?_zero, if_neg (Nat.succ_ne_zero n).symm]; rfl
    | succ k =>
      rw [find?_succ, find?_succ, odd_node, even_node]
      by_cases other : k % 2 = 0
      · rw [if_pos other, if_pos other, if_neg (by omega)]
      · have same : k / 2 = n / 2 ↔ k + 1 = n + 1 := by omega
        rw [if_neg other, if_neg other, ih]
        simp only [same]

end Memory

end EnumMacros.Identifier
