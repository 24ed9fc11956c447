import EnumMacros.Proofs.Definition.Histories
import EnumMacros.Proofs.Identifier.Correspondence
import EnumMacros.Proofs.Identifier.Reserving

/-! Checks of growing size. One parameter more leaves the others as they are,
`IsAccepted.exists_checkParams`, so the comparisons gain one with each of them; the calls gain no
more than two uses of the parameter and, where a name refers to the size once, a digit in two names.
Once calls make the check shorter, they therefore do so for every larger size, and what a composer
remembers of the sizes before tells it what measuring would. -/

namespace EnumMacros

open Identifier (Scope blockStart freeRaw runs spell)

namespace Style

variable {s : Style} {n m : Nat}

/-! ### Parameters -/

/-- The first identifiers are short, the keywords left out or not. -/
theorem freeRaw_reserved_lt (s : Style) {i d : Nat} (few : 2 * i + 3 ≤ 3 * 10 ^ (d + 1)) :
    freeRaw s.reserved i < blockStart (d + 1) := by
  cases d with
  | zero =>
    -- No keyword is a letter, which their number alone does not tell.
    have letters : freeRaw s.reserved 13 < blockStart 1 := by
      rw [reserved]
      cases s.avoidKeywords <;> decide +kernel
    rcases Nat.lt_or_eq_of_le (show i ≤ 13 by omega) with below | rfl
    · exact (Identifier.freeRaw_lt _ below).trans letters
    · exact letters
  | succ d =>
    have skipped := (Identifier.skipped_le s.reserved i).trans
      (Identifier.length_wordRaws_le s.reserved)
    have words : s.reserved.length ≤ 45 := by
      rw [reserved]
      cases s.avoidKeywords <;> decide
    have longer : 10 ^ d ≤ runs d := by
      rw [Identifier.runs_eq_pow]
      exact Nat.pow_le_pow_left (by decide) d
    have positive : 0 < 10 ^ d := Nat.pow_pos (by decide)
    have block : blockStart (d + 2) = blockStart (d + 1) + 52 * (63 * runs d) := rfl
    rw [block, freeRaw]
    rw [Nat.pow_succ, Nat.pow_succ] at few
    omega

/-- A name with the size in it is none of the identifiers that come up for the parameters of the
check that calls it. -/
theorem IsAccepted.le_of_mem_skips (accepted : s.IsAccepted)
    (refers : s.distinctName.references ≠ []) (large : 3 ≤ n) {skip : Nat}
    (member : skip ∈ (Scope.of (Composer.start s).names (s.checkNames n)).skips) : n ≤ skip := by
  have steady := Composer.steady_start s
  obtain ⟨-, taken⟩ := (Scope.mem_skips_of_iff steady.sound s.room_wordRaws).1 member
  rw [Identifier.IsFree, not_not, checkNames, if_neg (by omega)] at taken
  obtain ⟨k, size, called⟩ := List.mem_map.1 taken
  have thirds := (mem_calleeSizes_iff.1 size).1
  rw [Composer.checkName, steady.macroName_eq] at called
  -- The name that is called has a letter before its digits, so its raw index lies past all that are
  -- as short as the digits; an index below `n`, at most half as much again as `k`, does not.
  have longer := (accepted.names .distinct).length_toDigits_lt refers called.symm
  have power := Text.lt_pow_length_toDigits k
  obtain ⟨d, digits⟩ : ∃ d, (Nat.toDigits 10 k).length = d + 1 :=
    Nat.exists_eq_add_one.2 Nat.length_toDigits_pos
  rw [digits] at longer power
  by_contra below
  have short := Identifier.length_spell_lt_iff.2
    (s.freeRaw_reserved_lt (show 2 * skip + 3 ≤ 3 * 10 ^ (d + 1) by omega))
  omega

theorem checkNames_of_references_eq_nil (constant : s.distinctName.references = [])
    (large : 3 ≤ n) : s.checkNames n = List.replicate 3 (s.macroName .distinct 0) := by
  have same (k : Nat) : (Composer.start s).checkName k = s.macroName .distinct 0 :=
    ((Composer.steady_start s).macroName_eq .distinct k).trans
      (Template.render_of_references_eq_nil constant _ _)
  rw [checkNames, if_neg (by omega), Composer.callees, List.map_congr_left fun k _ => same k,
    List.map_const']
  rfl

/-- The checks that call smaller ones have their parameters in common. -/
theorem IsAccepted.exists_checkParams (accepted : s.IsAccepted) :
    ∃ param : Nat → String, ∀ n, 3 ≤ n → s.checkParams n = (List.range n).map param := by
  by_cases refers : s.distinctName.references = []
  · refine ⟨Scope.nameAt s.reserved (.of (Composer.start s).names (s.checkNames 3)),
      fun n large => ?_⟩
    rw [checkParams, checkNames_of_references_eq_nil refers large,
      checkNames_of_references_eq_nil refers (Nat.le_refl 3)]
  · refine ⟨fun i => spell (freeRaw s.reserved i), fun n large => ?_⟩
    refine List.map_congr_left fun i member => ?_
    have later : ∀ skip ∈ (Scope.of (Composer.start s).names (s.checkNames n)).skips, i < skip :=
      fun skip inside =>
        (List.mem_range.1 member).trans_le (accepted.le_of_mem_skips refers large inside)
    rw [Scope.nameAt, Scope.advance?_of_forall_lt later, Option.getD_some]

/-! ### One parameter more -/

theorem IsAccepted.shorterDivided_succ (accepted : s.IsAccepted)
    (single : s.distinctName.references.length ≤ 1) (large : 3 ≤ n) (shorter : s.ShorterDivided n) :
    s.ShorterDivided (n + 1) := by
  obtain ⟨param, params⟩ := accepted.exists_checkParams
  have grown : s.checkParams (n + 1) = s.checkParams n ++ [param n] := by
    rw [params n large, params (n + 1) (by omega), List.range_succ, List.map_append]
    rfl
  have names := total_calleeSizes_succ (f := fun k => (s.macroName .distinct k).utf8ByteSize)
    (fun k => ((accepted.names .distinct).utf8ByteSize_render_succ_le k).trans
      (Nat.add_le_add_left single _)) n
  have compared : n * ((param n).utf8ByteSize + 9) ≤
      total ((s.checkParams n).map (s.assertion.pairCost · (param n))) := by
    have each : ∀ x ∈ s.checkParams n,
        (param n).utf8ByteSize + 9 ≤ s.assertion.pairCost x (param n) := fun x _ => by
      have := s.assertion.le_pairCost x (param n)
      omega
    have least := length_mul_le_total each
    rwa [Composer.length_checkParams] at least
  have three : 3 * ((param n).utf8ByteSize + 9) ≤ n * ((param n).utf8ByteSize + 9) :=
    Nat.mul_le_mul_right _ large
  -- The calls gain at most `2 * |x| + 4` bytes from a parameter `x`, the comparisons three times
  -- `|x| + 9` at least.
  rw [shorterDivided_iff large] at shorter
  rw [shorterDivided_iff (by omega), grown, pairsCost_concat, List.map_append, total_append,
    List.map_singleton, total, total]
  omega

theorem IsAccepted.shorterDivided_mono (accepted : s.IsAccepted)
    (single : s.distinctName.references.length ≤ 1) (large : 3 ≤ n) (le : n ≤ m)
    (shorter : s.ShorterDivided n) : s.ShorterDivided m := by
  induction m, le using Nat.le_induction with
  | base => exact shorter
  | succ m le ih => exact accepted.shorterDivided_succ single (large.trans le) ih

end Style

namespace Composer

variable {style : Style} {n : Nat}

/-! ### What is remembered -/

theorem paysOff_before_iff (accepted : style.IsAccepted)
    (single : style.distinctName.references.length ≤ 1) (large : 3 ≤ n) (asked : List Nat) :
    (∃ k ∈ n :: asked, k ≤ n ∧ style.paysOff k = true) ↔ style.ShorterDivided n := by
  simp only [Style.paysOff, decide_eq_true_eq]
  constructor
  · rintro ⟨k, -, le, least, shorter⟩
    exact accepted.shorterDivided_mono single least le shorter
  · exact fun shorter => ⟨n, List.mem_cons_self, Nat.le_refl n, large, shorter⟩

/-- A check is written as measuring would have it, whatever has been asked for before. -/
theorem define_distinct_measured (accepted : style.IsAccepted)
    (single : style.distinctName.references.length ≤ 1) {uses : List Use}
    (small : ∀ use ∈ uses, use.size < sizeLimit) (large : 3 ≤ n) (bound : n < sizeLimit) :
    (((start style).afterAll uses).define .distinct n).1 =
      some (style.check n (style.ShorterDivided n)) := by
  rw [(steady_afterAll style uses).define_distinct (pivot_start_afterAll style small) large bound]
  simp only [paysOff_before_iff accepted single large]

/-- Where the names of checks refer to the size at most once, calls that make a check shorter make
every larger one shorter. So a composer that knows of a smaller size at which they do is right not
to measure, a check has the form that is shorter, and its line is the same after any history. -/
theorem calls_stay_shorter (style : Style) (accepted : style.IsAccepted)
    (single : style.distinctName.references.length ≤ 1) :
    (∀ n m, 3 ≤ n → n ≤ m → style.ShorterDivided n → style.ShorterDivided m) ∧
    ∀ uses : List Use, (∀ use ∈ uses, use.size < sizeLimit) → ∀ m < sizeLimit,
      (((start style).afterAll uses).hasPivot m = true → style.ShorterDivided m) ∧
      (3 ≤ m → (((start style).afterAll uses).define .distinct m).1 =
        some (style.check m (style.ShorterDivided m))) ∧
      (((start style).afterAll uses).defineLine .distinct m).1 =
        ((start style).defineLine .distinct m).1 := by
  refine ⟨fun n m large le => accepted.shorterDivided_mono single large le,
    fun uses small m bound => ⟨fun known => ?_, fun large => ?_, ?_⟩⟩
  · obtain ⟨k, -, le, pays⟩ := (hasPivot_iff (pivot_start_afterAll style small) m).1 known
    obtain ⟨least, shorter⟩ := of_decide_eq_true pays
    exact accepted.shorterDivided_mono single least le shorter
  · exact define_distinct_measured accepted single small large bound
  · have steady := steady_afterAll style uses
    have same : (((start style).afterAll uses).define .distinct m).1 =
        ((start style).define .distinct m).1 := by
      rcases Nat.lt_or_ge 2 m with large | few
      · have fresh : ∀ use ∈ ([] : List Use), use.size < sizeLimit := by simp
        rw [define_distinct_measured accepted single small large bound,
          ← define_distinct_measured accepted single fresh large bound]
        rfl
      · exact steady.define_distinct_of_le few
    have written : ((start style).afterAll uses).line = (start style).line := by
      funext d
      rw [line, line, steady.styled, (steady_start style).styled]
    simp only [defineLine, same, written]

/-- From size four on checks are shorter with calls, asked for in whatever order. -/
theorem calls_stay_shorter_from_four :
    let uses : List Use := [.define .distinct 9, .name .enum 7, .define .distinct 4]
    Style.standard.IsAccepted ∧ Style.standard.distinctName.references.length ≤ 1 ∧
      (∀ use ∈ uses, use.size < sizeLimit) ∧
      (∀ m, 4 ≤ m → Style.standard.ShorterDivided m) ∧
      (((start .standard).afterAll uses).define .distinct 3).1 =
        some (Style.standard.check 3 false) ∧
      (((start .standard).afterAll uses).defineLine .distinct 100).1 =
        ((start .standard).defineLine .distinct 100).1 := by
  intro uses
  have small : ∀ use ∈ uses, use.size < sizeLimit := by decide
  have single : Style.standard.distinctName.references.length ≤ 1 := by decide
  obtain ⟨stays, written⟩ := calls_stay_shorter .standard Style.isAccepted_standard single
  have four : Style.standard.ShorterDivided 4 := by decide +kernel
  have three : Style.standard.ShorterDivided 3 ↔ False := by decide +kernel
  refine ⟨Style.isAccepted_standard, single, small, fun m le => stays 4 m (by decide) le four, ?_,
    (written uses small 100 (by decide)).2.2⟩
  rw [(written uses small 3 (by decide)).2.1 (Nat.le_refl 3)]
  simp only [three, decide_false]

end Composer

end EnumMacros
