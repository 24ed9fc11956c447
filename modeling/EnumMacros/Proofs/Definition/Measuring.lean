import EnumMacros.Proofs.Definition.Composing
import EnumMacros.Proofs.Definition.Counting
import EnumMacros.Proofs.Definition.Dividing

/-! Measuring the two forms of a check. Calls are taken exactly when the text with the calls is
shorter than the text with the comparisons, `callsAreShorter_iff`, although the comparisons are
never written out to be measured. With one parameter more, every comparison with it is added to the
one text, `pairsCost_concat`, and to the other no more than two uses of it, `bytes_partCalls`. -/

namespace EnumMacros

theorem pairsCost_concat {α : Type} (cost : α → α → Nat) (xs : List α) (x : α) :
    pairsCost cost (xs ++ [x]) = pairsCost cost xs + total (xs.map (cost · x)) := by
  induction xs with
  | nil => rfl
  | cons y ys ih =>
    rw [List.cons_append, pairsCost_cons, pairsCost_cons, ih, List.map_append, total_append,
      List.map_singleton, List.map_cons, total, total, total]
    omega

theorem length_mul_le_total {α : Type} {f : α → Nat} {xs : List α} {least : Nat}
    (above : ∀ x ∈ xs, least ≤ f x) : xs.length * least ≤ total (xs.map f) := by
  induction xs with
  | nil => simp [total]
  | cons x xs ih =>
    obtain ⟨first, rest⟩ := List.forall_mem_cons.1 above
    rw [List.length_cons, Nat.succ_mul, List.map_cons, total, Nat.add_comm]
    exact Nat.add_le_add first (ih rest)

theorem total_map_add_one {α : Type} (f : α → Nat) (xs : List α) :
    total (xs.map fun x => f x + 1) = total (xs.map f) + xs.length := by
  induction xs with
  | nil => rfl
  | cons x xs ih =>
    rw [List.map_cons, List.map_cons, total, total, ih, List.length_cons]
    omega

namespace Assertion

variable (a : Assertion)

theorem utf8ByteSize_joint : a.joint.utf8ByteSize = 1 := by
  rw [joint]
  cases a.extent <;> decide

/-- The bytes of the check of a pair, with the joint that divides it from another. -/
def pairCost (x y : String) : Nat := Token.bytes (a.pairTokens x y) + 1

theorem bytes_comparison (x y : String) :
    Token.bytes (comparison x y) = x.utf8ByteSize + y.utf8ByteSize + 8 := by
  have opened : "((".utf8ByteSize = 2 := by decide
  have unequal : ")!=(".utf8ByteSize = 4 := by decide
  have closed : "))".utf8ByteSize = 2 := by decide
  simp only [comparison, Token.bytes_cons, Token.bytes_nil, Token.text, opened, unequal, closed]
  omega

/-- Whatever is asserted about a pair, it is compared. -/
theorem le_pairCost (x y : String) : x.utf8ByteSize + y.utf8ByteSize + 9 ≤ a.pairCost x y := by
  have compared := bytes_comparison x y
  rw [pairCost, pairTokens]
  cases a.extent with
  | once =>
    simp only
    omega
  | all =>
    simp only [Assertion.tokens, Token.bytes_append]
    omega

end Assertion

namespace Body

variable (a : Assertion)

theorem bytes_comparisons (names : List String) :
    ((comparisons names).text a).utf8ByteSize = pairsCost a.pairCost names - 1 := by
  have costs : pairsCost a.pairCost names =
      total ((pairs names).map fun p => Token.bytes (a.pairTokens p.1 p.2)) +
        (pairs names).length :=
    total_map_add_one (fun p : String × String => Token.bytes (a.pairTokens p.1 p.2)) (pairs names)
  have written : ((comparisons names).text a).utf8ByteSize =
      total ((pairs names).map fun p => Token.bytes (a.pairTokens p.1 p.2)) +
        ((pairs names).length - 1) := by
    rw [text, ← Token.bytes, tokens, Token.bytes_separated, a.utf8ByteSize_joint, List.map_map,
      List.length_map, Nat.mul_one]
    rfl
  rw [written, costs]
  cases pairs names with
  | nil => rfl
  | cons p ps =>
    rw [List.length_cons]
    omega

theorem bytes_calls (group : List Call) :
    ((calls group).text a).utf8ByteSize =
      total (group.map fun c => Token.bytes c.tokens) + (group.length - 1) := by
  rw [text, ← Token.bytes, tokens, Token.bytes_separated, a.utf8ByteSize_joint, List.map_map,
    List.length_map, Nat.mul_one]
  rfl

end Body

theorem Call.bytes_tokens (c : Call) :
    Token.bytes c.tokens = c.callee.utf8ByteSize + 2 +
      total (c.arguments.map String.utf8ByteSize) + (c.arguments.length - 1) := by
  have opened : "(".utf8ByteSize = 1 := by decide
  have closed : ")".utf8ByteSize = 1 := by decide
  have comma : ",".utf8ByteSize = 1 := by decide
  have words : total ((c.arguments.map fun x => [Token.word x]).map Token.bytes) =
      total (c.arguments.map String.utf8ByteSize) := by
    rw [List.map_map]
    rfl
  simp only [tokens, Token.bytes_append, Token.bytes_cons, Token.bytes_nil, Token.bytes_separated,
    Token.text, words, List.length_map, opened, closed, comma]
  omega

/-- Calls are found to be shorter when their text takes up fewer bytes than the comparisons. -/
theorem Composer.callsAreShorter_iff (a : Assertion) (group : List Call) (names : List String) :
    callsAreShorter a (.calls group) names = true ↔
      ((Body.calls group).text a).utf8ByteSize <
        ((Body.comparisons names).text a).utf8ByteSize := by
  have cost : (fun x y => (Token.textOf (a.pairTokens x y)).utf8ByteSize + a.joint.utf8ByteSize) =
      a.pairCost := by
    rw [a.utf8ByteSize_joint]
    rfl
  rw [callsAreShorter, Body.bytes_comparisons, cost, a.utf8ByteSize_joint, spendPairs_eq]
  split_ifs with enough
  · simp only [Option.isNone_some, Bool.false_eq_true, false_iff]
    omega
  · simp only [Option.isNone_none, true_iff]
    omega

namespace Style

variable {s : Style} {n : Nat}

/-- The text of the check of size `n` is shorter with calls than with comparisons. -/
def ShorterDivided (s : Style) (n : Nat) : Prop :=
  ((s.check n true).body.text s.assertion).utf8ByteSize <
    ((s.check n false).body.text s.assertion).utf8ByteSize

instance (s : Style) (n : Nat) : Decidable (s.ShorterDivided n) := Nat.decLt _ _

theorem prefersCalls_iff : s.prefersCalls n = true ↔ s.ShorterDivided n :=
  Composer.callsAreShorter_iff s.assertion (s.partCalls (s.checkParams n)) (s.checkParams n)

end Style

/-! ### Bytes of the calls -/

section Calls

variable {n : Nat}

theorem calleeSizes_eq {a b c : Nat} (divided : parts n = [⟨0, a⟩, ⟨a, b⟩, ⟨a + b, c⟩]) :
    Composer.calleeSizes n = [a + b, a + c, b + c] := by
  rw [Composer.calleeSizes_eq_map, divided]
  rfl

/-- The smaller checks are those of two thirds of the parameters, rounded down or up. -/
theorem mem_calleeSizes_iff {k : Nat} :
    k ∈ Composer.calleeSizes n ↔ 2 * n / 3 ≤ k ∧ k ≤ (2 * n + 2) / 3 := by
  obtain ⟨a, b, c, divided, whole, hc, hb, ha⟩ := parts_eq n
  simp only [calleeSizes_eq divided, List.mem_cons, List.not_mem_nil, or_false]
  omega

/-- With one parameter more, two of the smaller checks take one more. -/
theorem total_calleeSizes_succ {f : Nat → Nat} (slow : ∀ k, f (k + 1) ≤ f k + 1) (n : Nat) :
    total ((Composer.calleeSizes (n + 1)).map f) ≤ total ((Composer.calleeSizes n).map f) + 2 := by
  obtain ⟨a, b, c, divided, whole, hc, hb, ha⟩ := parts_eq n
  obtain ⟨a', b', c', divided', whole', hc', hb', ha'⟩ := parts_eq (n + 1)
  obtain ⟨longer, rfl, rfl⟩ : a' = c + 1 ∧ b' = a ∧ c' = b := by omega
  have first : f (a' + b') ≤ f (b' + c) + 1 := by
    rw [show a' + b' = b' + c + 1 by omega]
    exact slow _
  have second : f (a' + c') ≤ f (c' + c) + 1 := by
    rw [show a' + c' = c' + c + 1 by omega]
    exact slow _
  rw [calleeSizes_eq divided, calleeSizes_eq divided']
  simp only [List.map_cons, List.map_nil, total]
  omega

/-- Each parameter is passed to two of the calls. -/
theorem bytes_partCalls (s : Style) {names : List String} (length : names.length = n)
    (large : 3 ≤ n) :
    ((Body.calls (s.partCalls names)).text s.assertion).utf8ByteSize =
      total ((Composer.calleeSizes n).map fun k => (s.macroName .distinct k).utf8ByteSize) +
        2 * total (names.map String.utf8ByteSize) + 2 * n + 5 := by
  obtain ⟨a, b, c, divided, whole, hc, hb, ha⟩ := parts_eq n
  have joined := members_parts (show names.length = a + b + c by omega)
  have first : ((⟨0, a⟩ : Run).members names).length = a :=
    Run.length_members (show 0 + a ≤ names.length by omega)
  have second : ((⟨a, b⟩ : Run).members names).length = b :=
    Run.length_members (show a + b ≤ names.length by omega)
  have third : ((⟨a + b, c⟩ : Run).members names).length = c :=
    Run.length_members (show a + b + c ≤ names.length by omega)
  have sizes : total (names.map String.utf8ByteSize) =
      total (((⟨0, a⟩ : Run).members names).map String.utf8ByteSize) +
        (total (((⟨a, b⟩ : Run).members names).map String.utf8ByteSize) +
          total (((⟨a + b, c⟩ : Run).members names).map String.utf8ByteSize)) := by
    rw [← total_append, ← total_append, ← List.map_append, ← List.map_append, joined]
  rw [Body.bytes_calls, Style.partCalls, length, divided, calleeSizes_eq divided, sizes]
  simp only [pairs_cons, pairs_nil, List.map_cons, List.map_nil, List.append_nil,
    List.cons_append, List.nil_append, total, Call.bytes_tokens, List.map_append, total_append,
    List.length_append, List.length_cons, List.length_nil, first, second, third]
  omega

/-- Calls make a check shorter where the names of the smaller checks, each parameter twice, and the
marks between them take up less than the comparisons. -/
theorem Style.shorterDivided_iff {s : Style} (large : 3 ≤ n) :
    s.ShorterDivided n ↔
      total ((Composer.calleeSizes n).map fun k => (s.macroName .distinct k).utf8ByteSize) +
          2 * total ((s.checkParams n).map String.utf8ByteSize) + 2 * n + 5 <
        pairsCost s.assertion.pairCost (s.checkParams n) - 1 := by
  have calls : (s.check n true).body = .calls (s.partCalls (s.checkParams n)) := rfl
  have comparisons : (s.check n false).body = .comparisons (s.checkParams n) := rfl
  rw [ShorterDivided, calls, comparisons, Body.bytes_comparisons,
    bytes_partCalls s (Composer.length_checkParams s n) large]

end Calls

end EnumMacros
