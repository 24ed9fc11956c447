import EnumMacros.Proofs.Header.Fitting
import EnumMacros.Proofs.Header.Tiling
import EnumMacros.Proofs.Identifier.Correspondence

/-! Sizes up to the largest one. Whatever is computed of a size stays within the bound on sizes, but
for the sum of a header's first size and the number of its macros: it is one more than the last
size, so it is out of bound exactly for the header that holds the largest size of all. A tree that
reaches this size does not get done; any other one does. -/

namespace EnumMacros

open Identifier (mapM_eq_some_map)

/-! ### Numbers within bound -/

theorem withinSizes?_of_lt {n : Nat} (small : n < sizeLimit) : withinSizes? n = some n :=
  withinSizes?_eq_some_iff.2 ⟨small, rfl⟩

/-- The parts of the positions of a check, where every number on the way to them is within bound. -/
def parts? (n : Nat) : Option (List Run) := partsBy withinSizes? n

/-- The position after a run. -/
def Run.past? (r : Run) : Option Nat := withinSizes? (r.start + r.length)

/-- The sizes of the smaller checks that a check of size `n` may call. -/
def calleeSizes? (n : Nat) : Option (List Nat) := calleeSizesBy withinSizes? n

variable {n : Nat}

theorem parts?_eq (small : n < sizeLimit) : parts? n = some (parts n) := by
  refine mapM_eq_some_map fun p member => ?_
  have part : p ≤ 2 := Nat.le_of_lt_succ (List.mem_range.1 member)
  have before : p * (n / partCount) ≤ 2 * (n / partCount) := Nat.mul_le_mul_right _ part
  have division : n / partCount = n / 3 ∧ n % partCount = n % 3 := ⟨rfl, rfl⟩
  rw [partBy, withinSizes?_of_lt (by omega), Option.bind_eq_bind, Option.bind_some,
    withinSizes?_of_lt (by omega), Option.bind_some, withinSizes?_of_lt (by split_ifs <;> omega)]
  rfl

theorem past?_of_mem_parts (small : n < sizeLimit) {r : Run} (member : r ∈ parts n) :
    r.past? = some (r.start + r.length) := by
  obtain ⟨a, b, c, divided, whole, -⟩ := parts_eq n
  simp only [divided, List.mem_cons, List.not_mem_nil, or_false] at member
  refine withinSizes?_of_lt ?_
  rcases member with rfl | rfl | rfl
  all_goals
    simp only
    omega

theorem calleeSizes?_eq (small : n < sizeLimit) :
    calleeSizes? n = some (Composer.calleeSizes n) := by
  rw [calleeSizes?, calleeSizesBy, ← parts?, parts?_eq small, Composer.calleeSizes_eq_map]
  refine mapM_eq_some_map fun qr member => withinSizes?_of_lt ?_
  have two_thirds := (length_of_mem_pairs_parts member).1.2
  omega

theorem withinSizes?_callees (small : n < sizeLimit) :
    withinSizes? (Tree.leastCallee n) = some (Tree.leastCallee n) ∧
      withinSizes? (Tree.greatestCallee n) = some (Tree.greatestCallee n) := by
  have two := two_lt_sizeLimit
  constructor
  all_goals apply withinSizes?_of_lt
  · rw [Tree.leastCallee]
    omega
  · rw [Tree.greatestCallee]
    omega

namespace Tree

variable {style : Style} {output : TreeOutput} {guardStyle : GuardStyle} {family : Family}
  {range : Request}

/-- A range that reaches the largest size is not gone through. -/
theorem exhausted_growFrom {last : Nat} (bound : range.last = some last)
    (whole : last + 1 = sizeLimit) (s : State) (first : Nat) :
    Composer.Reached style s.composer → family.least ≤ first → first ≤ last →
      (growFrom output guardStyle family range s first).completed = false := by
  fun_induction growFrom output guardStyle family range s first with
  | case1 s first reaches next empty =>
    intro reached least le
    have written : next.lines ≠ [] :=
      nextLines_ne_nil reached (by simp [Request.hasEnd, bound]) least (by omega)
    exact absurd (List.isEmpty_iff.1 empty) written
  | case2 s first reaches next nonempty final found span rest ih =>
    intro reached least le
    have run : next.IsRun style family range first := isRun_nextLines reached reaches
    have written : next.lines ≠ [] := by simpa using nonempty
    obtain ⟨meets, small⟩ := next_of_headerEnd? found (List.length_pos_iff.2 written)
    exact ih run.composer (by omega) (by omega)
  | case3 => exact fun _ _ _ => rfl
  | case4 s first stopped =>
    intro reached least le
    exact absurd (by simpa [Request.reaches, bound] using le) stopped

theorem exhausted_grown (output : TreeOutput) (guardStyle : GuardStyle) {selection : Selection}
    (selects : selection.isEmpty = false) (style : Style) {last : Nat}
    (bound : range.last = some last) (forward : range.first ≤ last)
    (whole : last + 1 = sizeLimit) :
    (grown output guardStyle selection range (.start style)).completed = false := by
  have wide := two_lt_sizeLimit
  have reaches (family : Family) : ∃ part, range.from? family.least = some part := by
    have most := family.least_le_two
    cases found : range.from? family.least with
    | some part => exact ⟨part, rfl⟩
    | none =>
      obtain ⟨final, ends, below⟩ := from?_eq_none found
      obtain rfl := Option.some.inj (bound.symm.trans ends)
      omega
  have exhausts {family : Family} {part : Request} (starts : range.from? family.least = some part)
      (s : State) (reached : Composer.Reached style s.composer) :
      (grow output guardStyle family part s).completed = false := by
    obtain ⟨first, ends, below⟩ := from?_eq_some starts
    exact exhausted_growFrom (ends.trans bound) whole s part.first reached
      (first ▸ Nat.le_max_right _ _) (first ▸ below last bound)
  obtain ⟨distinct, enum⟩ := selection
  rw [grown, growDistinct_eq]
  cases distinct with
  | true =>
    obtain ⟨part, starts⟩ := reaches .distinct
    rw [if_pos rfl, starts, Option.map_some, Option.map_some, Option.getD_some,
      exhausts starts _ .start]
    rfl
  | false =>
    have enum_selected : enum = true := by simpa [Selection.isEmpty] using selects
    obtain ⟨part, starts⟩ := reaches .enum
    show (withEnums output guardStyle ⟨false, enum⟩ range []
      ⟨.start style, .empty, 0⟩).completed = _
    rw [withEnums, if_pos enum_selected, starts]
    exact exhausts starts _ .start

end Tree

/-- The end of a header that is written is found from its first size and the number of its
macros. -/
theorem Header.Follows.headerEnd? {style : Style} {groupLength : Nat} {before : List Header}
    {header : Header} (h : header.Follows style groupLength before) :
    headerEnd? header.span.first header.lines.length = some header.span.last := by
  have forward := h.forward
  have count : header.lines.length = header.span.last + 1 - header.span.first := by
    rw [← List.length_map (f := Prod.fst), h.sizes, Span.sizes, List.length_range']
  have bounded := h.bounded
  exact headerEnd?_eq_some_iff.2 (by omega)

namespace Job

theorem exhausted_plan (job : Job) (output : TreeOutput) {last : Nat}
    (selects : job.families.isEmpty = false) (bounded : job.range.last = some last)
    (forward : job.range.first ≤ last) (whole : last + 1 = sizeLimit) :
    (Tree.plan output job.guardStyle job.selected job.range (.start job.style)).ending =
      .sizesExhausted := by
  have exhausted := Tree.exhausted_grown output job.guardStyle (isEmpty_selected selects) job.style
    bounded forward whole
  exact if_neg (Bool.eq_false_iff.1 exhausted)

/-- Of what is computed of sizes within bounds, only the end of a header that holds the largest size
is not found. A single header for a bounded range is always written. A tree gets done if its range
ends below the largest size, and if it ends there, the tree does not get done, since it stops at the
header that would hold the largest size. -/
theorem tree_exhausts_sizes_iff (job : Job) (last : Nat) (selects : job.families.isEmpty = false)
    (bounded : job.range.last = some last) (forward : job.range.first ≤ last)
    (small : last < sizeLimit) :
    (∀ n < sizeLimit,
      parts? n = some (parts n) ∧ (∀ r ∈ parts n, r.past? = some (r.start + r.length)) ∧
      calleeSizes? n = some (Composer.calleeSizes n) ∧
      withinSizes? (Tree.leastCallee n) = some (Tree.leastCallee n) ∧
      withinSizes? (Tree.greatestCallee n) = some (Tree.greatestCallee n)) ∧
    (∀ first count final, first + count = final + 1 → final < sizeLimit →
      (headerEnd? first count = none ↔ final + 1 = sizeLimit)) ∧
    ((∀ tree, job.output ≠ .tree tree) →
      ∃ plan summary, job.plan = .ok plan ∧ plan.ending = .finished summary) ∧
    ∀ output, job.output = .tree output →
      ∃ (plan : Plan) (headers : List Header),
        job.plan = .ok plan ∧
        Plan.writes plan.actions =
          headers.map (fun h => (h.path output, h.text job.guardStyle)) ∧
        (∀ h ∈ headers, headerEnd? h.span.first h.lines.length = some h.span.last) ∧
        (plan.ending = .sizesExhausted ↔ last + 1 = sizeLimit) := by
  refine ⟨fun n within => ⟨parts?_eq within, fun r => past?_of_mem_parts within,
    calleeSizes?_eq within, withinSizes?_callees within⟩, fun first count final ends within => ?_,
    fun single => ?_, fun output tree => ?_⟩
  · rw [headerEnd?_eq_none_iff]
    omega
  · have ended : job.range.hasEnd = true := by rw [Request.hasEnd, bounded]; rfl
    have finished : ∃ summary, job.singlePlan.ending = .finished summary := by
      rw [singlePlan]
      split <;> exact ⟨_, rfl⟩
    obtain ⟨summary, finished⟩ := finished
    exact ⟨_, summary, plan_single selects single (.inl ended), finished⟩
  · obtain ⟨checks, enums, middle, past, built⟩ :=
      Tree.exists_built output job.guardStyle job.selected job.range job.style
    refine ⟨_, _, plan_tree selects tree, Tree.writes_actions [] _, fun h member => ?_,
      fun exhausted => ?_, exhausted_plan job output selects bounded forward⟩
    · obtain ⟨earlier, later, place⟩ := List.append_of_mem member
      exact (built.follows place).headerEnd?
    · by_contra below
      have completed := built.completed last bounded (by omega)
      have finished : (Tree.plan output job.guardStyle job.selected job.range
          (.start job.style)).ending = .finished _ := if_pos completed
      cases finished.symm.trans exhausted

/-- The largest size alone and the one before it, for the macros that are written without writing
checks. -/
theorem tree_exhausts_sizes_iff_of_largest :
    (∃ plan, Job.plan ⟨⟨4294967295, some 4294967295⟩, ⟨false, true⟩, .omitted, .classic, .standard,
        .tree ⟨"out", 262144, 2⟩, none⟩ = .ok plan ∧ plan.ending = .sizesExhausted) ∧
      ∃ plan, Job.plan ⟨⟨4294967294, some 4294967294⟩, ⟨false, true⟩, .omitted, .classic, .standard,
        .tree ⟨"out", 262144, 2⟩, none⟩ = .ok plan ∧ plan.ending ≠ .sizesExhausted := by
  have runs (last : Nat) (small : last < sizeLimit) :=
    (tree_exhausts_sizes_iff ⟨⟨last, some last⟩, ⟨false, true⟩, .omitted, .classic, .standard,
      .tree ⟨"out", 262144, 2⟩, none⟩ last rfl rfl (Nat.le_refl last) small).2.2.2 _ rfl
  obtain ⟨plan, -, planned, -, -, exhausts⟩ := runs 4294967295 (by decide)
  obtain ⟨plan', -, planned', -, -, exhausts'⟩ := runs 4294967294 (by decide)
  exact ⟨⟨plan, planned, exhausts.2 rfl⟩, plan', planned',
    fun exhausted => absurd (exhausts'.1 exhausted) (by decide)⟩

/-- So not every tree for a range within bounds gets done: the enum macro of the largest size does
not, even where no check is asked for. -/
theorem largest_size_exhausts :
    ¬ ∀ (job : Job) (output : TreeOutput) (last : Nat) (plan : Plan), job.output = .tree output →
      job.range.last = some last → job.range.first ≤ last → last < sizeLimit →
      job.plan = .ok plan → ∃ summary, plan.ending = .finished summary := by
  intro always
  let job : Job := ⟨⟨4294967295, some 4294967295⟩, ⟨false, true⟩, .omitted, .classic, .standard,
    .tree ⟨"out", 262144, 2⟩, none⟩
  have exhausted := exhausted_plan job ⟨"out", 262144, 2⟩ rfl rfl (Nat.le_refl _) rfl
  obtain ⟨summary, finished⟩ :=
    always job _ 4294967295 _ rfl rfl (Nat.le_refl _) (by decide) (plan_tree rfl rfl)
  exact nomatch finished.symm.trans exhausted

end Job

end EnumMacros
