import EnumMacros.Proofs.Header.Fitting

/-! Searching for the last size that fits. A search asks for the macros from the first size on, as
writing the header then does; what the composer has come to remember it would have found out again,
so the header is the same, `make_after_fit`. A range with an end is written in full, and a cap on
its header shows in the reports only. -/

namespace EnumMacros

open Composer (Ready)

namespace Single

/-- Which sizes a family takes up in a header is no matter of the composer. -/
theorem summary_addFamily (span : Span) (single : Single) (family : Family) :
    (addFamily span single family).summary =
      match familySpan? span family with
      | none => single.summary
      | some part => single.summary.setSpan (some part) family := by
  rw [addFamily]
  cases familySpan? span family <;> rfl

theorem summary_make (c d : Composer) (guardStyle : GuardStyle) (selection : Selection)
    (span : Span) :
    (make c guardStyle selection span).summary = (make d guardStyle selection span).summary := by
  have filled (families : List Family) (single other : Single)
      (same : single.summary = other.summary) :
      (families.foldl (addFamily span) single).summary =
        (families.foldl (addFamily span) other).summary := by
    induction families generalizing single other with
    | nil => exact same
    | cons family families ih =>
      exact ih _ _ (by rw [summary_addFamily, summary_addFamily, same])
  exact filled selection.toList _ _ rfl

/-- After a search from its first size on, a header is written as from the start: whatever guard,
families, end and cap the search was for. -/
theorem make_after_fit (style : Style) (guardStyle searchGuard : GuardStyle)
    (selection searched : Selection) (range : Request) (cap : Nat) {last : Nat}
    (start : range.first < sizeLimit) (small : last < sizeLimit) :
    (make (fit (.start style) searchGuard searched range cap).composer guardStyle selection
        ⟨range.first, last⟩).text =
      (make (.start style) guardStyle selection ⟨range.first, last⟩).text ∧
    (make (fit (.start style) searchGuard searched range cap).composer guardStyle selection
        ⟨range.first, last⟩).summary =
      (make (.start style) guardStyle selection ⟨range.first, last⟩).summary := by
  refine ⟨?_, summary_make _ _ guardStyle selection _⟩
  have fresh (family : Family) : Ready style range.first family range.first (.start style) :=
    Composer.ready_start style range.first family
  have after (family : Family) : Ready style range.first family range.first
      (fit (.start style) searchGuard searched range cap).composer :=
    ready_fitFrom (fresh family) (Nat.le_refl _) start
  exact (text_make (fun family _ => after family) guardStyle small).trans
    (text_make (fun family _ => fresh family) guardStyle small).symm

end Single

namespace Job

variable {job : Job} {last : Nat}

theorem singleSpan_of_bounded (bounded : job.range.last = some last) {cap : Nat}
    (capped : job.headerCap = some cap) (c : Composer) :
    ∃ events, job.singleSpan c =
      (Span.of? job.range.first last, events,
        (Single.fit c job.guardStyle job.selected job.range cap).composer) := by
  rw [singleSpan, capped, bounded]
  exact ⟨_, rfl⟩

theorem singleSpan_of_uncapped (bounded : job.range.last = some last)
    (uncapped : job.headerCap = none) (c : Composer) :
    job.singleSpan c = (Span.of? job.range.first last, [], c) := by
  rw [singleSpan, uncapped, bounded]
  rfl

/-- The steps for a header, apart from the reports, depend on its text only. -/
theorem effects_singleActions {header other : Single} (text : header.text = other.text)
    (output : Output) :
    Plan.effects (singleActions header output).1 = Plan.effects (singleActions other output).1 := by
  have printed (single : Single) : Plan.effects (.print single.text :: single.events.map .report) =
      [.print single.text] :=
    (Plan.effects_append [.print single.text] _).trans (by rw [Plan.effects_reports]; rfl)
  cases output with
  | stdout => exact (printed header).trans (text ▸ (printed other).symm)
  | tree _ => exact (printed header).trans (text ▸ (printed other).symm)
  | file path => simp only [singleActions, Plan.effects_append, Plan.effects_reports, text]

theorem snd_singleActions {header other : Single} (summary : header.summary = other.summary)
    (output : Output) : (singleActions header output).2 = (singleActions other output).2 := by
  cases output <;> simp only [singleActions, summary]

/-- With a cap or without, the plan for a range with an end is the same but for the reports. -/
theorem effects_singlePlan (job : Job) (bounded : job.range.last = some last)
    (small : last < sizeLimit) (cap : Nat) :
    Plan.effects (singlePlan { job with headerCap := some cap }).actions =
      Plan.effects (singlePlan { job with headerCap := none }).actions ∧
    (singlePlan { job with headerCap := some cap }).ending =
      (singlePlan { job with headerCap := none }).ending := by
  obtain ⟨events, capped⟩ := singleSpan_of_bounded
    (show ({ job with headerCap := some cap } : Job).range.last = some last from bounded) rfl
    (.start job.style)
  have uncapped := singleSpan_of_uncapped
    (show ({ job with headerCap := none } : Job).range.last = some last from bounded) rfl
    (.start job.style)
  rw [singlePlan, singlePlan, capped, uncapped, Span.of?]
  split_ifs with forward
  · obtain ⟨text, summary⟩ := Single.make_after_fit job.style job.guardStyle job.guardStyle
      job.selected job.selected job.range cap (forward.trans_lt small) small
    simp only [Plan.effects_append, Plan.effects_reports]
    exact ⟨congrArg _ (effects_singleActions text job.output),
      congrArg Ending.finished (snd_singleActions summary job.output)⟩
  · exact ⟨by simp only [Plan.effects_reports], rfl⟩

/-- A search for the last size that fits does not show in what is written. A run for a range with an
end prints the same, leaves the same disk and has the same result with any cap as without one; and
a composer that has searched from some size on, for whatever header, writes the headers from that
size on as a new one does. -/
theorem search_leaves_header :
    (∀ (job : Job) (last cap : Nat), job.families.isEmpty = false →
      (∀ tree, job.output ≠ .tree tree) → job.range.last = some last → last < sizeLimit →
      ∃ capped uncapped : Plan,
        Job.plan { job with headerCap := some cap } = .ok capped ∧
        Job.plan { job with headerCap := none } = .ok uncapped ∧
        ∀ disk : Disk,
          (capped.run disk).printed = (uncapped.run disk).printed ∧
          (capped.run disk).disk = (uncapped.run disk).disk ∧
          (capped.run disk).result = (uncapped.run disk).result) ∧
    ∀ (style : Style) (guardStyle searchGuard : GuardStyle) (selection searched : Selection)
      (range : Request) (cap last : Nat), range.first < sizeLimit → last < sizeLimit →
      let composer := (Single.fit (.start style) searchGuard searched range cap).composer
      let span : Span := ⟨range.first, last⟩
      (Single.make composer guardStyle selection span).text =
          (Single.make (.start style) guardStyle selection span).text ∧
        (Single.make composer guardStyle selection span).summary =
          (Single.make (.start style) guardStyle selection span).summary := by
  refine ⟨fun job last cap selects single bounded small => ?_,
    fun style guardStyle searchGuard selection searched range cap last start small =>
      Single.make_after_fit style guardStyle searchGuard selection searched range cap start small⟩
  have ended : job.range.hasEnd = true := by rw [Request.hasEnd, bounded]; rfl
  refine ⟨_, _, plan_single selects single (.inl ended), plan_single selects single (.inl ended),
    fun disk => ?_⟩
  obtain ⟨steps, ending⟩ := effects_singlePlan job bounded small cap
  exact Outcome.unreported_eq_iff.1 (Plan.unreported_run_congr steps ending disk)

/-- A search that stops early or goes past the end leaves the headers up to size 6 as they are. -/
theorem search_leaves_header_up_to_six :
    (∃ capped uncapped : Plan,
      Job.plan ⟨⟨3, some 6⟩, ⟨true, true⟩, .added, .classic, .standard, .stdout, some 100⟩ =
        .ok capped ∧
      Job.plan ⟨⟨3, some 6⟩, ⟨true, true⟩, .added, .classic, .standard, .stdout, none⟩ =
        .ok uncapped ∧
      (capped.run Disk.blank).printed = (uncapped.run Disk.blank).printed ∧
      (capped.run Disk.blank).result = (uncapped.run Disk.blank).result) ∧
    (3 < sizeLimit ∧ 6 < sizeLimit) ∧
    (Single.make (Single.fit (.start .standard) .unguarded ⟨true, false⟩ ⟨3, none⟩ 10000).composer
        .classic ⟨true, true⟩ ⟨3, 6⟩).text =
      (Single.make (.start .standard) .classic ⟨true, true⟩ ⟨3, 6⟩).text := by
  obtain ⟨runs, headers⟩ := search_leaves_header
  obtain ⟨capped, uncapped, planned, planned', same⟩ := runs
    ⟨⟨3, some 6⟩, ⟨true, true⟩, .added, .classic, .standard, .stdout, none⟩ 6 100 rfl
    (fun _ => Output.noConfusion) rfl (by decide)
  obtain ⟨printed, -, result⟩ := same .blank
  exact ⟨⟨capped, uncapped, planned, planned', printed, result⟩, ⟨by decide, by decide⟩,
    (headers .standard .classic .unguarded ⟨true, true⟩ ⟨true, false⟩ ⟨3, none⟩ 10000 6 (by decide)
      (by decide)).1⟩

end Job

end EnumMacros
