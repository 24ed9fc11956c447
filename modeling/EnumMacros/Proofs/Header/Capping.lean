import EnumMacros.Proofs.Header.Packing

/-! What the cap of a tree means for an open range. The first family that is generated ends where a
macro passes the cap by itself, and none of its headers is above the cap. Enum macros that follow
checks are generated for a range which those have bounded, so there a macro above the cap is
written, in a header of its own. -/

namespace EnumMacros

namespace Tree

variable {style : Style} {output : TreeOutput} {guardStyle : GuardStyle} {family : Family}
  {range : Request} {selection : Selection}

theorem Emits.family_eq {before added : List Header} {completed : Bool} {part? : Option Request}
    (h : Emits style output guardStyle family before added completed part?) :
    ∀ header ∈ added, header.family = family := by
  intro header member
  obtain ⟨earlier, later, place⟩ := List.append_of_mem member
  obtain ⟨part, -, packed⟩ := h.packed place
  exact packed.family_eq

/-- Without an end the headers go up to a macro that is above the cap by itself, or the sizes are
exhausted. -/
theorem Emits.exists_stop {before added : List Header} {completed : Bool} {part : Request}
    (h : Emits style output guardStyle family before added completed (some part))
    (ends : part.hasEnd = false) (least : family.least ≤ part.first)
    (small : part.first < sizeLimit) :
    ∃ past, Grows style output.groupLength family before part.first added past ∧
      (completed = false ∨ ∃ line, style.Prints family past line ∧
        output.sizeCap < (Header.after output.groupLength (before ++ added) family (.single past)
          [(past, line)]).size guardStyle) := by
  obtain ⟨s, records, rfl, done⟩ := h
  cases completed with
  | true =>
    obtain ⟨past, line, grows, prints, above⟩ :=
      exists_stop_growFrom ends s part.first before records least small (done rfl)
    exact ⟨past, grows, .inr ⟨line, prints, above⟩⟩
  | false =>
    obtain ⟨past, covers⟩ := exists_covers_growFrom s part.first before records least
    exact ⟨past, covers.grows, .inl rfl⟩

theorem from?_of_open (ends : range.last = none) (least : Nat) :
    range.from? least = some ⟨max range.first least, none⟩ := by
  rw [Request.from?, ends]
  rfl

/-- The family that is generated first starts on an empty tree. -/
theorem emits_first (output : TreeOutput) (guardStyle : GuardStyle) (style : Style)
    (ends : range.last = none) (first : selection.toList.head? = some family) :
    Emits style output guardStyle family []
      (ofFamily family (headers (grown output guardStyle selection range (.start style)).steps))
      (grown output guardStyle selection range (.start style)).completed
      (some ⟨max range.first family.least, none⟩) := by
  obtain ⟨checks, enums, part?, joined, of_checks, of_enums, asked⟩ :=
    exists_emits output guardStyle selection range style
  obtain ⟨own_checks, own_enums⟩ := ofFamily_joined of_checks.family_eq of_enums.family_eq
  rw [from?_of_open ends] at of_checks
  rw [from?_of_open ends] at asked
  rw [joined]
  match selection, first with
  | ⟨true, _⟩, first =>
    obtain rfl : Family.distinct = family := Option.some.inj first
    rw [own_checks]
    exact of_checks
  | ⟨false, true⟩, first =>
    obtain rfl : Family.enum = family := Option.some.inj first
    obtain rfl : checks = [] := of_checks
    obtain rfl := asked.resolve_right fun other => absurd other.1 Bool.false_ne_true
    rw [own_enums]
    exact of_enums
  | ⟨false, false⟩, first => exact absurd first (by simp [Selection.toList, Selection.contains])

end Tree

namespace Job

/-- In an open range the headers of the family that is generated first hold all sizes up to the
first whose macro is above the cap by itself, unless the sizes are exhausted before. Of all headers
only those with enum macros after checks can be above the cap, and then they hold a single macro. -/
theorem open_tree_stops_at_cap (job : Job) (output : TreeOutput)
    (selects : job.families.isEmpty = false) (tree : job.output = .tree output)
    (ends : job.range.last = none) (small : job.range.first < sizeLimit) :
    ∃ (plan : Plan) (headers : List Header),
      job.plan = .ok plan ∧
      Plan.writes plan.actions =
        headers.map (fun h => (h.path output, h.text job.guardStyle)) ∧
      (∀ h ∈ headers, output.sizeCap < h.size job.guardStyle →
        h.family = .enum ∧ job.selected.distinct = true ∧ h.lines.length = 1) ∧
      ∀ family, job.selected.toList.head? = some family →
        ∃ past,
          (Tree.ofFamily family headers).flatMap (·.span.sizes) =
            List.range' (max job.range.first family.least)
              (past - max job.range.first family.least) ∧
          (plan.ending = .sizesExhausted ∨
            ∃ line, job.style.Prints family past line ∧
              output.sizeCap < (Header.after output.groupLength (Tree.ofFamily family headers)
                family (.single past) [(past, line)]).size job.guardStyle) := by
  have packed {earlier later : List Header} {h : Header}
      (place : Tree.headers (Tree.grown output job.guardStyle job.selected job.range
        (.start job.style)).steps = earlier ++ h :: later) := Tree.exists_packed place
  have emits {family : Family} (first : job.selected.toList.head? = some family) :=
    Tree.emits_first output job.guardStyle job.style ends first
  have planned := plan_tree selects tree
  rw [Tree.plan] at planned
  generalize Tree.grown output job.guardStyle job.selected job.range (.start job.style) = grown
    at planned packed emits
  refine ⟨_, Tree.headers grown.steps, planned, Tree.writes_actions [] grown.steps,
    fun h member large => ?_, fun family first => ?_⟩
  · obtain ⟨earlier, later, place⟩ := List.append_of_mem member
    obtain ⟨bounded, own, allowed⟩ := packed place
    obtain ⟨single, bounded⟩ := own.alone large
    rcases allowed bounded with has_end | ⟨enum, checks⟩
    · rw [Request.hasEnd, ends] at has_end
      exact absurd has_end (by decide)
    · exact ⟨enum, checks, single⟩
  · obtain ⟨past, grows, exhausted | stopped⟩ :=
      (emits first).exists_stop rfl (Nat.le_max_right _ _) (family.max_least_lt small)
    · exact ⟨past, grows.sizes, .inl (if_neg (Bool.eq_false_iff.1 exhausted))⟩
    · exact ⟨past, grows.sizes, .inr stopped⟩

/-- Under a cap of 100 bytes there is one check, since the next one is above the cap by itself. -/
theorem open_tree_stops_at_cap_of_100 :
    ∃ (plan : Plan) (headers : List Header),
      Job.plan ⟨⟨2, none⟩, .all, .added, .classic, .standard, .tree ⟨"out", 100, 2⟩, none⟩ =
        .ok plan ∧
      plan.ending =
        .finished ⟨some ⟨2, 2⟩, some ⟨2, 2⟩,
          ["out/areuniq/areuniq2.h", "out/uniqenum/uniqenum2.h"]⟩ ∧
      (∀ h ∈ headers, 100 < h.size .classic → h.family = .enum ∧ h.lines.length = 1) ∧
      ∃ past line,
        (Tree.ofFamily .distinct headers).flatMap (·.span.sizes) = List.range' 2 (past - 2) ∧
        Style.Prints .standard .distinct past line ∧
        100 < (Header.after 2 (Tree.ofFamily .distinct headers) .distinct (.single past)
          [(past, line)]).size .classic := by
  obtain ⟨plan, headers, planned, -, above, stops⟩ :=
    open_tree_stops_at_cap
      ⟨⟨2, none⟩, .all, .added, .classic, .standard, .tree ⟨"out", 100, 2⟩, none⟩ ⟨"out", 100, 2⟩
      rfl rfl rfl (by decide)
  have ending : (Job.plan ⟨⟨2, none⟩, .all, .added, .classic, .standard,
      .tree ⟨"out", 100, 2⟩, none⟩).toOption.map (·.ending) =
        some (.finished ⟨some ⟨2, 2⟩, some ⟨2, 2⟩,
          ["out/areuniq/areuniq2.h", "out/uniqenum/uniqenum2.h"]⟩) := by decide +kernel
  rw [planned] at ending
  have finished := Option.some.inj ending
  obtain ⟨past, sizes, exhausted | ⟨line, prints, large⟩⟩ := stops .distinct rfl
  · exact nomatch finished.symm.trans exhausted
  · exact ⟨plan, headers, planned, finished,
      fun h member beyond => ⟨(above h member beyond).1, (above h member beyond).2.2⟩,
      past, line, sizes, prints, large⟩

/-- The enum macro after that check is above the cap, and is written all the same. -/
theorem open_tree_exceeds_cap :
    ¬ ∀ (job : Job) (output : TreeOutput) (plan : Plan), job.output = .tree output →
      job.range.hasEnd = false → job.plan = .ok plan →
      ∀ w ∈ Plan.writes plan.actions, w.2.utf8ByteSize ≤ output.sizeCap := by
  intro never
  have sizes : (Job.plan ⟨⟨2, none⟩, .all, .added, .classic, .standard,
      .tree ⟨"out", 100, 2⟩, none⟩).toOption.map
        (fun plan => (Plan.writes plan.actions).map (·.2.utf8ByteSize)) = some [73, 184] := by
    decide +kernel
  obtain ⟨plan, planned⟩ : ∃ plan, Job.plan ⟨⟨2, none⟩, .all, .added, .classic, .standard,
      .tree ⟨"out", 100, 2⟩, none⟩ = .ok plan := ⟨_, plan_tree rfl rfl⟩
  rw [planned] at sizes
  have listed : (Plan.writes plan.actions).map (·.2.utf8ByteSize) = [73, 184] :=
    Option.some.inj sizes
  have written : 184 ∈ (Plan.writes plan.actions).map (·.2.utf8ByteSize) := by
    rw [listed]
    decide
  obtain ⟨w, member, size⟩ := List.mem_map.1 written
  have small := never _ _ plan rfl rfl planned w member
  rw [size] at small
  exact absurd small (by decide)

end Job

end EnumMacros
