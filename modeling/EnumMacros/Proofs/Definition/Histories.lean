import EnumMacros.Proofs.Definition.Measuring
import EnumMacros.Proofs.Definition.Remembering

/-! Histories of a composer. All that uses leave behind for those after them is the pivot: the least
size, among the checks asked for so far, at which calls make the check shorter, whatever order the
sizes came in, `pivot_afterAll`. It decides which form a check gets; names, parameters and enum
macros come as from a new composer. -/

namespace EnumMacros

/-- Calls make the check of size `n` shorter; from size three on there can be calls. -/
def Style.paysOff (s : Style) (n : Nat) : Bool := 3 ≤ n ∧ s.ShorterDivided n

namespace Composer

/-- A use of a composer: asking for the name of a family's macro, or for its definition. -/
inductive Use
  | name (family : Family) (n : Nat)
  | define (family : Family) (n : Nat)

def Use.size : Use → Nat
  | name _ n | define _ n => n

/-- The size of the check that is asked for. -/
def Use.check? : Use → Option Nat
  | define .distinct n => some n
  | define .enum _ | name _ _ => none

def after (c : Composer) : Use → Composer
  | .name family n => c.naming family n
  | .define family n => (c.define family n).2

def afterAll (c : Composer) (uses : List Use) : Composer := uses.foldl after c

/-- The sizes of the checks that have been asked for. -/
def checkSizes (uses : List Use) : List Nat := uses.filterMap Use.check?

variable {style : Style} {c : Composer}

theorem Reached.afterAll (h : Reached style c) (uses : List Use) :
    Reached style (c.afterAll uses) := by
  induction uses generalizing c with
  | nil => exact h
  | cons use uses ih =>
    cases use with
    | name family n => exact ih (h.name family n)
    | define family n => exact ih (h.step family n)

theorem Steady.after (h : Steady style c) (use : Use) : Steady style (c.after use) := by
  cases use with
  | name family n => exact h.naming family n
  | define family n => exact h.define family n

/-! ### The pivot -/

/-- A check asked for moves the pivot down to its size where calls pay off there. -/
theorem Steady.pivot_distinct (h : Steady style c) {n : Nat} (least : 2 ≤ n)
    (small : n < sizeLimit) :
    (c.distinct n).2.pivot = Option.merge min c.pivot ((some n).filter style.paysOff) := by
  have pays : n ≠ 2 ∧ style.prefersCalls n = true ↔ style.paysOff n = true := by
    rw [Style.prefersCalls_iff, Style.paysOff, decide_eq_true_eq]
    exact and_congr_left fun _ => by omega
  rw [(h.distinct_eq small).2, Option.filter_some]
  by_cases found : style.paysOff n = true
  · obtain ⟨two, shorter⟩ := pays.2 found
    rw [if_pos found]
    cases pivot : c.pivot with
    | none => simp [hasPivot, pivot, two, shorter]
    | some p =>
      by_cases known : p ≤ n
      · simp [hasPivot, pivot, known]
      · simp [hasPivot, pivot, two, shorter, known, Nat.le_of_not_le known]
  · have stays : ¬(n ≠ 2 ∧ c.hasPivot n = false ∧ style.prefersCalls n = true) :=
      fun moves => found (pays.1 ⟨moves.1, moves.2.2⟩)
    rw [if_neg stays, if_neg found, Option.merge_none_right]

theorem Steady.pivot_after (h : Steady style c) {use : Use} (small : use.size < sizeLimit) :
    (c.after use).pivot = Option.merge min c.pivot (use.check?.filter style.paysOff) := by
  cases use with
  | name family n => exact Option.merge_none_right.symm
  | define family n =>
    rw [Composer.after, Composer.define.eq_def]
    cases family with
    | enum =>
      have same : (if n < Family.enum.least then (none, c) else c.enum n).2.pivot = c.pivot := by
        split_ifs
        · rfl
        · exact pivot_enum c n
      exact same.trans Option.merge_none_right.symm
    | distinct =>
      split_ifs with below
      · have few : style.paysOff n = false := by
          have : n < 2 := below
          rw [Style.paysOff, decide_eq_false_iff_not]
          omega
        rw [Use.check?, Option.filter_some, few]
        exact Option.merge_none_right.symm
      · exact h.pivot_distinct (Nat.le_of_not_lt below) small

theorem min?_filterMap_cons {α : Type} (f : α → Option Nat) (x : α) (xs : List α) :
    ((x :: xs).filterMap f).min? = Option.merge min (f x) (xs.filterMap f).min? := by
  rw [List.filterMap_cons]
  cases f x with
  | none => exact Option.merge_none_left.symm
  | some n =>
    rw [List.min?_cons]
    cases (xs.filterMap f).min? <;> rfl

theorem Steady.pivot_afterAll (h : Steady style c) {uses : List Use}
    (small : ∀ use ∈ uses, use.size < sizeLimit) :
    (c.afterAll uses).pivot =
      Option.merge min c.pivot ((checkSizes uses).filter style.paysOff).min? := by
  rw [checkSizes, List.filter_filterMap]
  induction uses generalizing c with
  | nil => exact Option.merge_none_right.symm
  | cons use uses ih =>
    obtain ⟨first, rest⟩ := List.forall_mem_cons.1 small
    have regroup (p q r : Option Nat) :
        Option.merge min (Option.merge min p q) r = Option.merge min p (Option.merge min q r) :=
      Std.Associative.assoc p q r
    rw [min?_filterMap_cons, ← regroup, ← h.pivot_after first]
    exact ih (h.after use) rest

theorem steady_afterAll (style : Style) (uses : List Use) :
    Steady style ((start style).afterAll uses) :=
  (Reached.start.afterAll uses).steady

theorem pivot_start_afterAll (style : Style) {uses : List Use}
    (small : ∀ use ∈ uses, use.size < sizeLimit) :
    ((start style).afterAll uses).pivot = ((checkSizes uses).filter style.paysOff).min? := by
  rw [(steady_start style).pivot_afterAll small]
  exact Option.merge_none_left

/-- The pivot says of every size whether calls have been found to pay off at one up to it. -/
theorem hasPivot_iff {uses : List Use}
    (pivot : c.pivot = ((checkSizes uses).filter style.paysOff).min?) (n : Nat) :
    c.hasPivot n = true ↔ ∃ k ∈ checkSizes uses, k ≤ n ∧ style.paysOff k = true := by
  rw [hasPivot, Option.any_eq_true, pivot]
  constructor
  · rintro ⟨k, least, le⟩
    obtain ⟨asked, pays⟩ := List.mem_filter.1 (List.min?_mem least)
    exact ⟨k, asked, of_decide_eq_true le, pays⟩
  · rintro ⟨k, asked, le, pays⟩
    have member := List.mem_filter.2 ⟨asked, pays⟩
    cases least : ((checkSizes uses).filter style.paysOff).min? with
    | none => exact absurd (List.min?_eq_none_iff.1 least ▸ member) List.not_mem_nil
    | some p =>
      have first : p ≤ k := (List.min?_eq_some_iff.1 least).2 k member
      exact ⟨p, rfl, decide_eq_true (first.trans le)⟩

/-! ### Definitions -/

/-- A check is divided into calls when they pay off at its own size or at one asked for before. -/
theorem Steady.define_distinct (h : Steady style c) {uses : List Use}
    (pivot : c.pivot = ((checkSizes uses).filter style.paysOff).min?) {n : Nat} (large : 3 ≤ n)
    (small : n < sizeLimit) :
    (c.define .distinct n).1 =
      some (style.check n (∃ k ∈ n :: checkSizes uses, k ≤ n ∧ style.paysOff k = true)) := by
  have least : ¬n < Family.distinct.least := by
    show ¬n < 2
    omega
  have own : style.prefersCalls n = true ↔ style.paysOff n = true := by
    rw [Style.prefersCalls_iff, Style.paysOff, decide_eq_true_eq, and_iff_right large]
  have form : (n != 2 && (c.hasPivot n || style.prefersCalls n)) =
      decide (∃ k ∈ n :: checkSizes uses, k ≤ n ∧ style.paysOff k = true) := by
    rw [Bool.eq_iff_iff, Bool.and_eq_true, Bool.or_eq_true, bne_iff_ne, decide_eq_true_eq,
      and_iff_right (show n ≠ 2 by omega), own, hasPivot_iff pivot, or_comm]
    simp only [List.mem_cons, exists_eq_or_imp, Nat.le_refl, true_and]
  rw [Composer.define.eq_def, if_neg least]
  simp only [(h.distinct_eq small).1, form]

/-- A check of two parameters has one form, and smaller ones there are none. -/
theorem Steady.define_distinct_of_le (h : Steady style c) {n : Nat} (few : n ≤ 2) :
    (c.define .distinct n).1 = ((start style).define .distinct n).1 := by
  rw [Composer.define.eq_def, Composer.define.eq_def]
  split_ifs with below
  · rfl
  · have least : ¬n < 2 := below
    obtain rfl : n = 2 := by omega
    have small : 2 < sizeLimit := by decide
    simp only [(h.distinct_eq small).1, ((steady_start style).distinct_eq small).1]
    rfl

theorem Steady.define_enum (h : Steady style c) {n : Nat} (small : n < sizeLimit) :
    (c.define .enum n).1 = ((start style).define .enum n).1 := by
  rw [Composer.define.eq_def, Composer.define.eq_def]
  split_ifs
  · rfl
  · exact (h.enum_eq small).trans ((steady_start style).enum_eq small).symm

theorem Steady.head_define (h : Steady style c) (family : Family) {n : Nat}
    (small : n < sizeLimit) :
    (c.define family n).1.map (fun d => (d.name, d.params)) =
      ((start style).define family n).1.map fun d => (d.name, d.params) := by
  cases family with
  | enum => rw [h.define_enum small]
  | distinct =>
    rw [Composer.define.eq_def, Composer.define.eq_def]
    split_ifs
    · rfl
    · simp only [(h.distinct_eq small).1, ((steady_start style).distinct_eq small).1]
      rfl

/-- After any history the pivot is the least size of a check asked for at which calls pay off. A
check is divided into calls when they pay off at its own size or at a smaller one asked for before,
and else compares every pair. Nothing else about a macro depends on the history. -/
theorem pivot_remembers_least (style : Style) (uses : List Use)
    (small : ∀ use ∈ uses, use.size < sizeLimit) :
    ((start style).afterAll uses).pivot = ((checkSizes uses).filter style.paysOff).min? ∧
    ∀ n < sizeLimit,
      (3 ≤ n → (((start style).afterAll uses).define .distinct n).1 =
        some (style.check n (∃ k ∈ n :: checkSizes uses, k ≤ n ∧ style.paysOff k = true))) ∧
      (((start style).afterAll uses).define .enum n).1 = ((start style).define .enum n).1 ∧
      ∀ family,
        ((start style).afterAll uses).macroName family n = style.macroName family n ∧
        (((start style).afterAll uses).define family n).1.map (fun d => (d.name, d.params)) =
          ((start style).define family n).1.map fun d => (d.name, d.params) := by
  have steady := steady_afterAll style uses
  have pivot := pivot_start_afterAll style small
  exact ⟨pivot, fun n bound => ⟨fun large => steady.define_distinct pivot large bound,
    steady.define_enum bound,
    fun family => ⟨steady.macroName_eq family n, steady.head_define family bound⟩⟩⟩

/-- A smaller size that is asked for later moves the pivot down. -/
theorem pivot_remembers_least_of_descending :
    let uses : List Use := [.define .distinct 6, .name .enum 7, .define .distinct 4,
      .define .enum 2, .define .distinct 3]
    (∀ use ∈ uses, use.size < sizeLimit) ∧ 3 < sizeLimit ∧
      ((start .standard).afterAll uses).pivot = some 4 ∧
      (((start .standard).afterAll uses).define .distinct 3).1 =
        some (Style.standard.check 3 false) := by
  intro uses
  have small : ∀ use ∈ uses, use.size < sizeLimit := by decide
  obtain ⟨pivot, definitions⟩ := pivot_remembers_least .standard uses small
  have pays : (checkSizes uses).filter Style.standard.paysOff = [6, 4] := by decide +kernel
  have form : (∃ k ∈ 3 :: checkSizes uses, k ≤ 3 ∧ Style.standard.paysOff k = true) ↔ False := by
    decide +kernel
  refine ⟨small, by decide, pivot.trans (by rw [pays]; rfl), ?_⟩
  rw [(definitions 3 (by decide)).1 (Nat.le_refl 3)]
  simp only [form, decide_false]

end Composer

end EnumMacros
