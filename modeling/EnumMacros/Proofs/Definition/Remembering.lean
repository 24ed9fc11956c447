import EnumMacros.Proofs.Definition.Composing
import Mathlib.Order.Interval.Set.Basic

/-! What a composer remembers of its requests: the smallest size at which the calls were found to be
shorter. It follows that checks asked for in order of size, from some first size on, come out the
same whichever of them have been asked for before; enum macros come out the same in any case. -/

namespace EnumMacros

namespace Style

/-- Whether the check of size `n` is divided into calls once those from size `first` on have been
asked for: the calls make one of them shorter. -/
def divides (s : Style) (first n : Nat) : Bool :=
  (List.range' first (n + 1 - first)).any fun k => 3 ≤ k && s.prefersCalls k

/-- The macro of a family of size `n`, after those from size `first` on. -/
def macroFrom (s : Style) (first : Nat) (family : Family) (n : Nat) : Definition :=
  match family with
  | .distinct => s.check n (s.divides first n)
  | .enum => s.enumMacro n

def lineFrom (s : Style) (first : Nat) (family : Family) (n : Nat) : Line :=
  (s.macroFrom first family n).line s.assertion

theorem divides_eq_true {s : Style} {first n : Nat} :
    s.divides first n = true ↔
      ∃ k, first ≤ k ∧ k ≤ n ∧ 3 ≤ k ∧ s.prefersCalls k = true := by
  simp only [divides, List.any_eq_true, List.mem_range'_1, Bool.and_eq_true, decide_eq_true_eq]
  grind

end Style

namespace Composer

/-- A composer that has been asked for the checks of some sizes, and for none but the allowed
ones. -/
structure Asked (style : Style) (sizes allowed : Set Nat) (c : Composer) : Prop
    extends Steady style c where
  shorter : ∀ k ∈ c.pivot, k ∈ allowed ∧ 3 ≤ k ∧ style.prefersCalls k = true
  known : ∀ k ∈ sizes, 3 ≤ k → style.prefersCalls k = true → c.hasPivot k = true

variable {style : Style} {sizes allowed : Set Nat} {c : Composer}

theorem asked_start (style : Style) (allowed : Set Nat) : Asked style ∅ allowed (.start style) :=
  { toSteady := steady_start style
    shorter := fun _ pivot => nomatch pivot
    known := fun _ member => absurd member (Set.notMem_empty _) }

theorem Asked.mono (h : Asked style sizes allowed c) {fewer : Set Nat}
    (part : ∀ k ∈ fewer, 3 ≤ k → k ∈ sizes) : Asked style fewer allowed c :=
  ⟨h.toSteady, h.shorter, fun k member large => h.known k (part k member large) large⟩

/-- What is known of the calls stays known. -/
theorem Steady.hasPivot_distinct (h : Steady style c) {n k : Nat} (small : n < sizeLimit)
    (known : c.hasPivot k = true) : (c.distinct n).2.hasPivot k = true := by
  rw [hasPivot, (h.distinct_eq small).2]
  split_ifs with found
  · obtain ⟨-, unknown, -⟩ := found
    rw [hasPivot, Option.any_eq_true] at known
    obtain ⟨p, same, le⟩ := known
    rw [hasPivot, same] at unknown
    simp only [Option.any_some, decide_eq_false_iff_not, decide_eq_true_eq] at unknown le ⊢
    omega
  · exact known

theorem Asked.distinct (h : Asked style sizes allowed c) {n : Nat} (small : n < sizeLimit)
    (inside : n ∈ allowed) (least : 2 ≤ n) :
    Asked style (insert n sizes) allowed (c.distinct n).2 := by
  refine ⟨h.toSteady.distinct n, fun k pivot => ?_, fun k member large shorter => ?_⟩
  · rw [(h.distinct_eq small).2] at pivot
    split_ifs at pivot with found
    · obtain rfl := Option.some.inj pivot
      exact ⟨inside, by omega, found.2.2⟩
    · exact h.shorter k pivot
  · rcases member with rfl | before
    · rw [hasPivot, (h.distinct_eq small).2]
      split_ifs with found
      · simp
      · rw [← hasPivot, ← Bool.not_eq_false]
        exact fun unknown => found ⟨by omega, unknown, shorter⟩
    · exact h.toSteady.hasPivot_distinct small (h.known k before large shorter)

/-- Enum macros are no matter of calls. -/
theorem pivot_enum (c : Composer) (n : Nat) : (c.enum n).2.pivot = c.pivot := by
  rw [Composer.enum, (draws_composeEnum _ n).pivot_eq, pivot_namingAll]
  rfl

theorem Asked.enum (h : Asked style sizes allowed c) (n : Nat) :
    Asked style sizes allowed (c.enum n).2 := by
  have pivot := pivot_enum c n
  refine ⟨h.toSteady.enum n, ?_, ?_⟩
  · rw [pivot]
    exact h.shorter
  · simp only [hasPivot, pivot]
    exact h.known

/-- A request leaves known what was known, and for a check that of its size. -/
theorem Asked.define (h : Asked style sizes allowed c) (family : Family) {n : Nat}
    (small : n < sizeLimit) (inside : n ∈ allowed) :
    Asked style sizes allowed (c.define family n).2 ∧
      (family = .distinct → Asked style (insert n sizes) allowed (c.define family n).2) := by
  have sooner {k : Nat} {c' : Composer} (later : Asked style (insert k sizes) allowed c') :
      Asked style sizes allowed c' :=
    later.mono fun _ member _ => Set.mem_insert_of_mem k member
  rw [Composer.define.eq_def]
  split_ifs with below
  · refine ⟨h, ?_⟩
    rintro rfl
    refine h.mono fun k member large => member.resolve_left fun same => ?_
    have : n < 2 := below
    omega
  · cases family with
    | distinct =>
      have later := h.distinct small inside (Nat.le_of_not_lt below)
      exact ⟨sooner later, fun _ => later⟩
    | enum => exact ⟨h.enum n, fun other => absurd other (by decide)⟩

/-! ### Requests in order -/

/-- A composer that writes the macros of a family from size `n` on as it does after those from
`first` on: it has been asked for the checks in between, and for none below. -/
def Ready (style : Style) (first : Nat) (family : Family) (n : Nat) (c : Composer) : Prop :=
  match family with
  | .distinct => Asked style (Set.Ico first n) (Set.Ici first) c
  | .enum => Steady style c

variable {first n : Nat} {family : Family}

theorem Ready.steady (h : Ready style first family n c) : Steady style c :=
  match family with
  | .distinct => h.toSteady
  | .enum => h

theorem ready_start (style : Style) (first : Nat) (family : Family) :
    Ready style first family first (.start style) := by
  cases family with
  | distinct => exact (asked_start style _).mono (by simp)
  | enum => exact steady_start style

/-- It makes no difference whether sizes have been asked for that the family has not. -/
theorem Ready.least (h : Ready style first family first c) :
    Ready style first family (max first family.least) c := by
  cases family with
  | distinct =>
    refine h.mono fun k ⟨from_first, below⟩ large => ?_
    have : k < max first 2 := below
    omega
  | enum => exact h

theorem Ready.define (h : Ready style first family n c) (other : Family) {m : Nat}
    (from_first : first ≤ m) (small : m < sizeLimit) :
    Ready style first family n (c.define other m).2 := by
  cases family with
  | distinct => exact (Asked.define h other small from_first).1
  | enum => exact Steady.define h other m

theorem Ready.next (h : Ready style first family n c) (from_first : first ≤ n)
    (small : n < sizeLimit) : Ready style first family (n + 1) (c.define family n).2 := by
  cases family with
  | distinct =>
    have asked := (Asked.define h .distinct small from_first).2 rfl
    refine asked.mono fun k member _ => ?_
    rcases Nat.lt_succ_iff_lt_or_eq.1 member.2 with below | same
    · exact .inr ⟨member.1, below⟩
    · exact .inl same
  | enum => exact Steady.define h .enum n

theorem Ready.define_eq (h : Ready style first family n c) (from_first : first ≤ n)
    (least : family.least ≤ n) (small : n < sizeLimit) :
    (c.define family n).1 = some (style.macroFrom first family n) := by
  rw [Composer.define.eq_def, if_neg (Nat.not_lt.2 least)]
  cases family with
  | enum => exact h.enum_eq small
  | distinct =>
    -- The one size that is remembered has shorter calls and is at least `first`, and no size asked
    -- for has them and is below it: it tells of `n` what all the sizes up to `n` would.
    have same : (n != 2 && (c.hasPivot n || style.prefersCalls n)) = style.divides first n := by
      rw [Bool.eq_iff_iff, Style.divides_eq_true, Bool.and_eq_true, Bool.or_eq_true, bne_iff_ne]
      constructor
      · rintro ⟨large, known⟩
        have least : 2 ≤ n := least
        rcases known with pivot | shorter
        · obtain ⟨k, found, le⟩ := (Option.any_eq_true _ _).1 pivot
          obtain ⟨inside, large, shorter⟩ := h.shorter k found
          exact ⟨k, inside, of_decide_eq_true le, large, shorter⟩
        · exact ⟨n, from_first, Nat.le_refl n, by omega, shorter⟩
      · rintro ⟨k, low, high, large, shorter⟩
        refine ⟨by omega, ?_⟩
        rcases Nat.lt_or_eq_of_le high with below | rfl
        · obtain ⟨p, found, le⟩ := (Option.any_eq_true _ _).1 (h.known k ⟨low, below⟩ large shorter)
          have le : p ≤ k := of_decide_eq_true le
          exact .inl ((Option.any_eq_true _ _).2 ⟨p, found, decide_eq_true (by omega)⟩)
        · exact .inr shorter
    rw [Style.macroFrom, ← same]
    exact (h.toSteady.distinct_eq small).1

theorem Ready.defineLine_eq (h : Ready style first family n c) (from_first : first ≤ n)
    (least : family.least ≤ n) (small : n < sizeLimit) :
    (c.defineLine family n).1 = some (style.lineFrom first family n) := by
  simp only [defineLine, h.define_eq from_first least small, Option.map_some, line, h.steady.styled,
    Style.lineFrom]

/-- Sizes can be asked for in order. -/
theorem exists_ready (style : Style) (family : Family) (from_first : first ≤ n)
    (small : n ≤ sizeLimit) : ∃ c, Reached style c ∧ Ready style first family n c := by
  induction n, from_first using Nat.le_induction with
  | base => exact ⟨_, .start, ready_start style first family⟩
  | succ n from_first ih =>
    obtain ⟨c, reached, ready⟩ := ih (Nat.le_of_succ_le small)
    exact ⟨_, .step family n reached, ready.next from_first small⟩

end Composer

theorem Style.prints_lineFrom (style : Style) {first n : Nat} {family : Family}
    (from_first : first ≤ n) (least : family.least ≤ n) (small : n < sizeLimit) :
    style.Prints family n (style.lineFrom first family n) := by
  obtain ⟨c, reached, ready⟩ := Composer.exists_ready style family from_first (Nat.le_of_lt small)
  exact ⟨c, reached, ready.defineLine_eq from_first least small⟩

end EnumMacros
