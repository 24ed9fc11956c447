import EnumMacros.Proofs.Definition.Remembering
import EnumMacros.Proofs.Header.Delivering
import EnumMacros.Proofs.Header.Sizing

/-! Single headers. What a header holds depends on its sizes and not on what the composer has been
asked for before, so the bytes that are counted in search of the last size are the bytes written,
and an open range ends at the last size with which the header stays within the cap. -/

namespace EnumMacros

open Composer (Ready)

/-! ### Lines -/

namespace Style

/-- The lines of a family for the sizes from `first` on and below `past`. -/
def linesBetween (s : Style) (first past : Nat) (family : Family) : List (Nat × Line) :=
  (List.range' (max first family.least) (past - max first family.least)).map fun n =>
    (n, s.lineFrom first family n)

/-- The line of a family for a size, if there is one. -/
def linesAt (s : Style) (first n : Nat) (family : Family) : List (Nat × Line) :=
  if family.least ≤ n then [(n, s.lineFrom first family n)] else []

variable {s : Style} {first n : Nat}

theorem linesBetween_self (s : Style) (first : Nat) (family : Family) :
    s.linesBetween first first family = [] := by
  rw [linesBetween, Nat.sub_eq_zero_of_le (Nat.le_max_left _ _)]
  rfl

theorem linesBetween_succ (s : Style) (from_first : first ≤ n) (family : Family) :
    s.linesBetween first (n + 1) family =
      s.linesBetween first n family ++ s.linesAt first n family := by
  rw [linesBetween, linesBetween, linesAt]
  split_ifs with least
  · have start : max first family.least ≤ n := Nat.max_le.2 ⟨from_first, least⟩
    rw [Nat.succ_sub start, List.range'_1_concat, List.map_append, List.map_singleton,
      Nat.add_sub_cancel' start]
  · have none_before : n - max first family.least = 0 := by omega
    have none_here : n + 1 - max first family.least = 0 := by omega
    rw [none_before, none_here]
    rfl

end Style

namespace Composer

variable {style : Style} {first n : Nat} {family other : Family} {c : Composer}

theorem snd_defineLine (c : Composer) (family : Family) (n : Nat) :
    (c.defineLine family n).2 = (c.define family n).2 := rfl

theorem Ready.toList_defineLine (h : Ready style first family n c) (from_first : first ≤ n)
    (small : n < sizeLimit) :
    ((c.defineLine family n).1.map (n, ·)).toList = style.linesAt first n family := by
  rw [Style.linesAt]
  split_ifs with least
  · rw [h.defineLine_eq from_first least small]
    rfl
  · rw [defineLine, Composer.define.eq_def, if_pos (Nat.lt_of_not_le least)]
    rfl

theorem Ready.ofSizes (h : Ready style first other n c) (family : Family) {sizes : List Nat}
    (bounds : ∀ m ∈ sizes, first ≤ m ∧ m < sizeLimit) :
    Ready style first other n (Printed.ofSizes c family sizes).composer := by
  induction sizes generalizing c with
  | nil => exact h
  | cons m sizes ih =>
    obtain ⟨⟨from_first, small⟩, rest⟩ := List.forall_mem_cons.1 bounds
    exact ih (h.define family from_first small) rest

/-- A family is printed as it is after its sizes from the first on. -/
theorem Ready.lines_ofSizes (h : Ready style first family n c) (from_first : first ≤ n)
    (least : family.least ≤ n) (count : Nat) (small : n + count ≤ sizeLimit) :
    (Printed.ofSizes c family (List.range' n count)).lines =
      (List.range' n count).map fun m => (m, style.lineFrom first family m) := by
  induction count generalizing n c with
  | zero => rfl
  | succ count ih =>
    have within : n < sizeLimit := by omega
    have next : Ready style first family (n + 1) (c.defineLine family n).2 :=
      h.next from_first within
    have rest := ih next (Nat.le_succ_of_le from_first) (Nat.le_succ_of_le least) (by omega)
    have line := h.defineLine_eq from_first least within
    rw [List.range'_succ, List.map_cons, ← rest]
    show ((c.defineLine family n).1.map (n, ·)).toList ++ _ = _
    rw [line]
    rfl

end Composer

/-! ### Texts -/

namespace Printed

theorem text_append (lines others : List (Nat × Line)) :
    text (lines ++ others) = text lines ++ text others := by
  rw [text, List.map_append, String.join_append]
  rfl

end Printed

namespace Single

variable {style : Style} {span : Span} {family other : Family} {single : Single}

theorem familySpan?_eq_some {part : Span} (h : familySpan? span family = some part) :
    part = ⟨max span.first family.least, span.last⟩ ∧ max span.first family.least ≤ span.last := by
  rw [familySpan?, Span.of?] at h
  split_ifs at h with forward
  exact ⟨(Option.some.inj h).symm, forward⟩

theorem ready_addFamily {n : Nat} (h : Ready style span.first other n single.composer)
    (small : span.last < sizeLimit) (family : Family) :
    Ready style span.first other n (addFamily span single family).composer := by
  rw [addFamily]
  split
  · exact h
  · next part found =>
    obtain ⟨rfl, -⟩ := familySpan?_eq_some found
    refine h.ofSizes family fun m member => ?_
    have bounds := Span.mem_sizes.1 member
    simp only at bounds
    omega

theorem text_addFamily (h : Ready style span.first family span.first single.composer)
    (small : span.last < sizeLimit) :
    (addFamily span single family).text =
      single.text ++ Printed.text (style.linesBetween span.first (span.last + 1) family) := by
  rw [addFamily]
  split
  · next empty =>
    have empty : max span.first family.least > span.last := by
      rw [familySpan?, Span.of?] at empty
      exact Nat.lt_of_not_le fun forward => by simp [forward] at empty
    have none_left : span.last + 1 - max span.first family.least = 0 := by omega
    rw [Style.linesBetween, none_left]
    exact (String.append_empty).symm
  · next part found =>
    obtain ⟨rfl, forward⟩ := familySpan?_eq_some found
    simp only [Span.sizes]
    rw [h.least.lines_ofSizes (Nat.le_max_left _ _) (Nat.le_max_right _ _) _ (by omega)]
    rfl

/-- A header holds the lines of its sizes, family by family, whatever sizes have been asked for
before it. -/
theorem text_make {c : Composer} {selection : Selection}
    (ready : ∀ family ∈ selection.toList, Ready style span.first family span.first c)
    (guardStyle : GuardStyle) (small : span.last < sizeLimit) :
    (make c guardStyle selection span).text =
      guardStyle.opening (GuardStyle.tag 0) ++
        Printed.text
          (selection.toList.flatMap (style.linesBetween span.first (span.last + 1))) ++
        guardStyle.closing := by
  -- A family that is added leaves the composer ready for those after it, from the first size on.
  have filled (families : List Family) (single : Single)
      (ready : ∀ family ∈ families, Ready style span.first family span.first single.composer) :
      (families.foldl (addFamily span) single).text = single.text ++
        Printed.text (families.flatMap (style.linesBetween span.first (span.last + 1))) := by
    induction families generalizing single with
    | nil => exact String.append_empty.symm
    | cons family families ih =>
      obtain ⟨own, others⟩ := List.forall_mem_cons.1 ready
      rw [List.foldl_cons, ih _ fun other member => ready_addFamily (others other member) small _,
        text_addFamily own small, List.flatMap_cons, Printed.text_append, String.append_assoc]
  exact congrArg (· ++ guardStyle.closing) (filled selection.toList _ ready)

end Single

/-! ### Sizes -/

namespace Style

/-- The bytes of a header with the families' macros for the sizes from `first` on and below
`past`. -/
def sizeBelow (s : Style) (guardStyle : GuardStyle) (families : List Family) (first past : Nat) :
    Nat :=
  guardStyle.size 0 + Printed.size (families.flatMap (s.linesBetween first past))

variable {s : Style} {guardStyle : GuardStyle} {families : List Family} {first n : Nat}

theorem sizeBelow_self (s : Style) (guardStyle : GuardStyle) (families : List Family)
    (first : Nat) : s.sizeBelow guardStyle families first first = guardStyle.size 0 := by
  have empty : families.flatMap (s.linesBetween first first) = [] :=
    List.flatMap_eq_nil_iff.2 fun family _ => linesBetween_self s first family
  rw [sizeBelow, empty]
  rfl

theorem sizeBelow_succ (s : Style) (guardStyle : GuardStyle) (families : List Family)
    (from_first : first ≤ n) :
    s.sizeBelow guardStyle families first (n + 1) =
      s.sizeBelow guardStyle families first n +
        Printed.size (families.flatMap (s.linesAt first n)) := by
  rw [sizeBelow, sizeBelow, Nat.add_assoc]
  congr 1
  induction families with
  | nil => rfl
  | cons family families ih =>
    simp only [List.flatMap_cons, Printed.size_append, ih, linesBetween_succ s from_first]
    omega

end Style

namespace Single

variable {style : Style} {first n : Nat} {c : Composer}

/-- The bytes counted for a size are those of its lines. -/
theorem sizeAt_eq {families : List Family}
    (ready : ∀ family ∈ families, Ready style first family n c) (from_first : first ≤ n)
    (small : n < sizeLimit) :
    (sizeAt c n families).1 = Printed.size (families.flatMap (style.linesAt first n)) := by
  induction families generalizing c with
  | nil => rfl
  | cons family families ih =>
    obtain ⟨own, others⟩ := List.forall_mem_cons.1 ready
    have rest := ih fun other member => (others other member).define family from_first small
    have line := own.toList_defineLine from_first small
    rw [List.flatMap_cons, Printed.size_append, ← rest, ← line]
    show ((c.defineLine family n).1.map Line.size).getD 0 + _ = _
    cases (c.defineLine family n).1 with
    | none => rfl
    | some line => rfl

theorem ready_sizeAt {other : Family} {m : Nat} (h : Ready style first other m c)
    (families : List Family) (from_first : first ≤ n) (small : n < sizeLimit) :
    Ready style first other m (sizeAt c n families).2.2 := by
  induction families generalizing c with
  | nil => exact h
  | cons family families ih => exact ih (h.define family from_first small)

/-- Once a size is counted, the families go on with the size after it. -/
theorem ready_sizeAt_next {families : List Family}
    (ready : ∀ family ∈ families, Ready style first family n c) (from_first : first ≤ n)
    (small : n < sizeLimit) :
    ∀ family ∈ families, Ready style first family (n + 1) (sizeAt c n families).2.2 := by
  induction families generalizing c with
  | nil => exact fun _ member => absurd member List.not_mem_nil
  | cons family families ih =>
    obtain ⟨own, others⟩ := List.forall_mem_cons.1 ready
    refine List.forall_mem_cons.2 ⟨?_, ?_⟩
    · exact ready_sizeAt (own.next from_first small) families from_first small
    · exact ih fun other member => (others other member).define family from_first small

/-- The search leaves a composer that writes the header as if nothing had been asked for. -/
theorem ready_fitFrom {families : List Family} {range : Request} {cap bytes m : Nat}
    {last : Option Nat} {other : Family} (h : Ready style first other m c)
    (from_first : first ≤ n) (small : n < sizeLimit) :
    Ready style first other m (fitFrom families range cap c n bytes last).composer := by
  fun_induction fitFrom families range cap c n bytes last with
  | case1 c n bytes last reaches size events after same full =>
    have counted := ready_sizeAt h families from_first small
    rwa [same] at counted
  | case2 c n bytes last reaches size events after same fits more rest ih =>
    have counted := ready_sizeAt h families from_first small
    rw [same] at counted
    exact ih counted (Nat.le_succ_of_le from_first) more
  | case3 c n bytes last reaches size events after same fits more =>
    have counted := ready_sizeAt h families from_first small
    rwa [same] at counted
  | case4 => exact h

/-- An open range ends at the last size with which the header fits, if there is one. -/
theorem last_fitFrom {guardStyle : GuardStyle} {families : List Family} {range : Request}
    (cap : Nat) {bytes : Nat} (last : Option Nat) (endless : range.last = none)
    (ready : ∀ family ∈ families, Ready style first family n c) (from_first : first ≤ n)
    (small : n < sizeLimit) (counted : bytes = style.sizeBelow guardStyle families first n) :
    (cap < style.sizeBelow guardStyle families first (n + 1) ∧
      (fitFrom families range cap c n bytes last).last = last) ∨
    style.sizeBelow guardStyle families first (n + 1) ≤ cap ∧
    ∃ m, n ≤ m ∧ m < sizeLimit ∧ (fitFrom families range cap c n bytes last).last = some m ∧
      style.sizeBelow guardStyle families first (m + 1) ≤ cap ∧
      (m + 1 = sizeLimit ∨ cap < style.sizeBelow guardStyle families first (m + 1 + 1)) := by
  have goes_on (n : Nat) : range.reaches n = true := by rw [Request.reaches, endless]; rfl
  have added {c : Composer} {n size : Nat} {events : List Event} {after : Composer}
      (ready : ∀ family ∈ families, Ready style first family n c) (from_first : first ≤ n)
      (small : n < sizeLimit) (same : sizeAt c n families = (size, events, after)) :
      style.sizeBelow guardStyle families first (n + 1) =
        style.sizeBelow guardStyle families first n + size := by
    have own := sizeAt_eq ready from_first small
    rw [same] at own
    rw [Style.sizeBelow_succ style guardStyle families from_first, ← own]
  -- What is counted is the size of the header below `n`, and grows by what is written for `n`.
  fun_induction fitFrom families range cap c n bytes last with
  | case1 c n bytes last reaches size events after same full =>
    rw [added ready from_first small same, ← counted]
    exact .inl ⟨full, rfl⟩
  | case2 c n bytes last reaches size events after same fits more rest ih =>
    have total := added ready from_first small same
    rw [← counted] at total
    have next := ready_sizeAt_next ready from_first small
    rw [same] at next
    rcases ih next (Nat.le_succ_of_le from_first) more total.symm with
      ⟨full, stays⟩ | ⟨-, m, later, rest⟩
    · exact .inr ⟨by omega, n, Nat.le_refl n, small, stays, by omega, .inr full⟩
    · exact .inr ⟨by omega, m, by omega, rest⟩
  | case3 c n bytes last reaches size events after same fits more =>
    have total := added ready from_first small same
    exact .inr ⟨by omega, n, Nat.le_refl n, small, rfl, by omega, .inl (by omega)⟩
  | case4 c n bytes last stopped => exact absurd (goes_on n) stopped

end Single

namespace Job

/-- The text of a single header for the sizes from `first` to `last`, written from the start. -/
def singleText (job : Job) (first last : Nat) : String :=
  (Single.make (.start job.style) job.guardStyle job.selected ⟨first, last⟩).text

variable {job : Job}

theorem singleText_eq (job : Job) (first : Nat) {last : Nat} (small : last < sizeLimit) :
    job.singleText first last =
      job.guardStyle.opening (GuardStyle.tag 0) ++
        Printed.text (job.selected.toList.flatMap (job.style.linesBetween first (last + 1))) ++
        job.guardStyle.closing :=
  Single.text_make (fun family _ => Composer.ready_start job.style first family) job.guardStyle
    small

/-- A header that has been measured is written as from the start. -/
theorem text_make_eq_singleText {c : Composer} {first last : Nat}
    (ready : ∀ family ∈ job.selected.toList, Ready job.style first family first c)
    (small : last < sizeLimit) :
    (Single.make c job.guardStyle job.selected ⟨first, last⟩).text = job.singleText first last :=
  (Single.text_make ready job.guardStyle small).trans (job.singleText_eq first small).symm

theorem utf8ByteSize_singleText (job : Job) (first : Nat) {last : Nat} (small : last < sizeLimit) :
    (job.singleText first last).utf8ByteSize =
      job.style.sizeBelow job.guardStyle job.selected.toList first (last + 1) := by
  rw [singleText_eq job first small, String.utf8ByteSize_append, String.utf8ByteSize_append,
    Printed.utf8ByteSize_text, Style.sizeBelow, GuardStyle.size]
  omega

theorem plan_single (selects : job.families.isEmpty = false)
    (single : ∀ tree, job.output ≠ .tree tree)
    (cut : job.range.hasEnd = true ∨ job.headerCap.isSome = true) :
    job.plan = .ok job.singlePlan := by
  have passes : (!job.range.hasEnd && job.headerCap.isNone) = false := by
    rcases cut with ends | capped
    · rw [ends]; rfl
    · rw [← Option.not_isSome, capped, Bool.not_true, Bool.and_false]
  rw [Job.plan, check, selects]
  cases output : job.output with
  | tree tree => exact absurd output (single tree)
  | stdout => simp [passes, bind, Except.bind, pure, Except.pure]
  | file path => simp [passes, bind, Except.bind, pure, Except.pure]

theorem singleSpan_of_endless {cap : Nat} (endless : job.range.last = none)
    (capped : job.headerCap = some cap) (c : Composer) :
    ∃ events, job.singleSpan c =
      ((Single.fit c job.guardStyle job.selected job.range cap).last.bind
          (Span.of? job.range.first), events,
        (Single.fit c job.guardStyle job.selected job.range cap).composer) := by
  rw [singleSpan, capped, endless]
  exact ⟨_, rfl⟩

/-- A run writes the header for the sizes that it has found. -/
theorem receives_singlePlan (single : ∀ tree, job.output ≠ .tree tree) {span : Span}
    {events : List Event} {c : Composer}
    (found : job.singleSpan (.start job.style) = (some span, events, c))
    (ready : ∀ family ∈ job.selected.toList, Ready job.style span.first family span.first c)
    (small : span.last < sizeLimit) :
    ∃ summary, ∀ disk : Disk,
      (∀ path, job.output = .file path → ∀ fault,
        (job.singlePlan.run disk).result ≠ .failed fault) →
      (job.singlePlan.run disk).result = .finished summary ∧
      job.output.Receives (job.singleText span.first span.last) disk (job.singlePlan.run disk) := by
  rw [singlePlan, found, ← text_make_eq_singleText ready small]
  exact ⟨_, fun disk fine => receives_run single _ _ _ disk fine⟩

/-- An open range goes to a single output up to the last size with which the header stays within
the cap, and what is written is the header for these sizes, written from the start, unless it goes
to a file and that cannot be written. Where no size fits, nothing is written at all. -/
theorem open_single_ends_at_cap (job : Job) (cap : Nat) (selects : job.families.isEmpty = false)
    (single : ∀ tree, job.output ≠ .tree tree) (endless : job.range.last = none)
    (capped : job.headerCap = some cap) (small : job.range.first < sizeLimit) :
    ∃ plan, job.plan = .ok plan ∧
      (cap < (job.singleText job.range.first job.range.first).utf8ByteSize →
        ∀ disk : Disk, (plan.run disk).result = .finished .empty ∧
          (plan.run disk).printed = "" ∧ (plan.run disk).disk = disk) ∧
      ((job.singleText job.range.first job.range.first).utf8ByteSize ≤ cap →
        ∃ last summary, job.range.first ≤ last ∧ last < sizeLimit ∧
          (job.singleText job.range.first last).utf8ByteSize ≤ cap ∧
          (last + 1 = sizeLimit ∨
            cap < (job.singleText job.range.first (last + 1)).utf8ByteSize) ∧
          ∀ disk : Disk,
            (∀ path, job.output = .file path → ∀ fault, (plan.run disk).result ≠ .failed fault) →
            (plan.run disk).result = .finished summary ∧
            job.output.Receives (job.singleText job.range.first last) disk (plan.run disk)) := by
  have start : ∀ family ∈ job.selected.toList,
      Ready job.style job.range.first family job.range.first (.start job.style) :=
    fun family _ => Composer.ready_start job.style job.range.first family
  have measured : ∀ family ∈ job.selected.toList, Ready job.style job.range.first family
      job.range.first (Single.fit (.start job.style) job.guardStyle job.selected job.range
        cap).composer :=
    fun family member => Single.ready_fitFrom (start family member) (Nat.le_refl _) small
  have search : Single.fit (.start job.style) job.guardStyle job.selected job.range cap =
      Single.fitFrom job.selected.toList job.range cap (.start job.style) job.range.first
        (job.guardStyle.size 0) none := rfl
  have found := Single.last_fitFrom cap none endless start (Nat.le_refl _) small
    (Style.sizeBelow_self job.style job.guardStyle job.selected.toList job.range.first).symm
  have size_first := job.utf8ByteSize_singleText job.range.first small
  refine ⟨job.singlePlan, plan_single selects single (.inr (by rw [capped]; rfl)), ?_⟩
  obtain ⟨events, span⟩ := singleSpan_of_endless endless capped (.start job.style)
  rw [← search] at found
  -- The search stops at once, or it has found a last size.
  rcases found with ⟨full, none_fits⟩ | ⟨fits, last, later, bound, some_fits, within, longest⟩
  · refine ⟨fun _ disk => ?_, fun fits => absurd (size_first ▸ fits) (Nat.not_le.2 full)⟩
    rw [none_fits] at span
    rw [singlePlan, span, Plan.run, Option.bind_none, Plan.performAll_map_report]
    exact ⟨rfl, rfl, rfl⟩
  · rw [some_fits, Option.bind_some, Span.of?, if_pos later] at span
    obtain ⟨summary, delivers⟩ := receives_singlePlan single span measured bound
    refine ⟨fun full => absurd (size_first ▸ full) (Nat.not_lt.2 fits), fun _ => ?_⟩
    refine ⟨last, summary, later, bound,
      (job.utf8ByteSize_singleText _ bound).le.trans within, ?_, delivers⟩
    rcases Nat.lt_or_eq_of_le (Nat.succ_le_of_lt bound) with more | whole
    · rw [job.utf8ByteSize_singleText _ more]
      exact .inr (longest.resolve_left (Nat.ne_of_lt more))
    · exact .inl whole

/-- Under a cap of 150 bytes the checks from size 2 on are printed up to the last that fits. -/
theorem open_single_ends_at_cap_of_150 :
    ∃ plan last,
      Job.plan ⟨⟨2, none⟩, ⟨true, false⟩, .added, .classic, .standard, .stdout, some 150⟩ =
        .ok plan ∧ 2 ≤ last ∧
      (plan.run Disk.blank).printed = singleText
        ⟨⟨2, none⟩, ⟨true, false⟩, .added, .classic, .standard, .stdout, some 150⟩ 2 last ∧
      (plan.run Disk.blank).printed.utf8ByteSize ≤ 150 := by
  obtain ⟨plan, planned, -, fits⟩ := open_single_ends_at_cap
    ⟨⟨2, none⟩, ⟨true, false⟩, .added, .classic, .standard, .stdout, some 150⟩ 150 rfl
    (fun _ => Output.noConfusion) rfl rfl (by decide)
  obtain ⟨last, summary, later, -, within, -, delivers⟩ := fits (by decide +kernel)
  obtain ⟨-, printed, -⟩ := delivers .blank fun _ => Output.noConfusion
  refine ⟨plan, last, planned, later, printed, ?_⟩
  rw [printed]
  exact within

end Job

end EnumMacros
