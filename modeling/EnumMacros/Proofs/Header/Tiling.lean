import EnumMacros.Generate
import EnumMacros.Proofs.Header.Reading

/-! A tree neither loses nor doubles anything. In a bounded range the headers of each family cover
its part of the range, one after the other; each defines what its sizes ask for and nothing else;
and every header has a path, a place and a guard macro of its own, so that on a disk all of them are
there when the run is over, and nothing else has changed. -/

namespace EnumMacros

/-- The sizes that a summary gives for a family. -/
def Summary.span (s : Summary) : Family → Option Span
  | .distinct => s.distinct
  | .enum => s.enum

namespace Tree

variable {style : Style} {range : Request} {groupLength past : Nat}

theorem Adds.sizes {family : Family} {before added : List Header} {last : Nat}
    (h : Adds style groupLength family true range before added past)
    (ends : range.last = some last) (small : last + 1 < sizeLimit) :
    added.flatMap (·.span.sizes) =
      List.range' (max range.first family.least) (last + 1 - max range.first family.least) := by
  rw [h.grows.sizes, h.complete last ends small rfl]
  congr 1
  omega

theorem Adds.span {family : Family} {before added : List Header} {last : Nat}
    (h : Adds style groupLength family true range before added past)
    (ends : range.last = some last) (small : last + 1 < sizeLimit) :
    Span.of? (max range.first family.least) (past - 1) =
      Span.of? (max range.first family.least) last := by
  have positive := least_pos range family
  have stops := h.complete last ends small rfl
  rw [Span.of?, Span.of?]
  split_ifs with le le'
  · congr 2
    omega
  · omega
  · omega
  · rfl

/-- The headers of one family. -/
def ofFamily (family : Family) (headers : List Header) : List Header :=
  headers.filter (·.family = family)

theorem ofFamily_eq_self {family : Family} {headers : List Header}
    (h : ∀ header ∈ headers, header.family = family) : ofFamily family headers = headers :=
  List.filter_eq_self.2 fun header member => decide_eq_true (h header member)

theorem ofFamily_eq_nil {family : Family} {headers : List Header}
    (h : ∀ header ∈ headers, header.family ≠ family) : ofFamily family headers = [] :=
  List.filter_eq_nil_iff.2 fun header member => by simpa using h header member

/-- A tree's headers are told apart by family. -/
theorem ofFamily_joined {checks enums : List Header}
    (of_checks : ∀ header ∈ checks, header.family = .distinct)
    (of_enums : ∀ header ∈ enums, header.family = .enum) :
    ofFamily .distinct (checks ++ enums) = checks ∧ ofFamily .enum (checks ++ enums) = enums := by
  have no_enums : ofFamily .distinct enums = [] := ofFamily_eq_nil fun header member => by
    rw [of_enums header member]
    decide
  have no_checks : ofFamily .enum checks = [] := ofFamily_eq_nil fun header member => by
    rw [of_checks header member]
    decide
  have append (family : Family) : ofFamily family (checks ++ enums) =
      ofFamily family checks ++ ofFamily family enums := List.filter_append ..
  rw [append, append, no_enums, no_checks, ofFamily_eq_self of_checks, ofFamily_eq_self of_enums]
  exact ⟨List.append_nil _, List.nil_append _⟩

section Built

variable {output : TreeOutput} {selection : Selection} {middle : Nat} {checks enums : List Header}
  {tree : Grown}
  (h : tree.Built style groupLength selection range checks enums middle past)

include h

/-- What the headers of a family come to, whichever it is. -/
theorem Grown.Built.adds (family : Family) :
    ∃ before stop,
      Adds style groupLength family (selection.contains family) range before
        (ofFamily family (headers tree.steps)) stop ∧
      (Summary.span ⟨tree.distinct, tree.enum, []⟩ family =
        Span.of? (max range.first family.least) (stop - 1)) := by
  obtain ⟨own_checks, own_enums⟩ :=
    ofFamily_joined h.add_checks.grows.family_eq h.add_enums.grows.family_eq
  rw [h.joined]
  cases family with
  | distinct =>
    rw [own_checks]
    exact ⟨[], middle, h.add_checks, h.distinct⟩
  | enum =>
    rw [own_enums]
    exact ⟨checks, past, h.add_enums, h.enum⟩

theorem Grown.Built.nodup_places : ((headers tree.steps).map (·.placeInTree output)).Nodup := by
  refine List.pairwise_map.2 (h.apart.imp fun apart same => apart ?_)
  exact Header.eq_of_placeInTree_eq same

theorem Grown.Built.nodup_paths : ((headers tree.steps).map (·.path output)).Nodup := by
  have places : ((headers tree.steps).map (·.placeInTree output)).Nodup := h.nodup_places
  refine List.pairwise_map.2 ((List.pairwise_map.1 places).imp fun apart same => apart ?_)
  exact Header.placeInTree_eq_of_path_eq same

theorem Grown.Built.nodup_guards :
    ((headers tree.steps).map fun header =>
      GuardStyle.guardMacro (GuardStyle.tag header.number)).Nodup := by
  have numbers : ((headers tree.steps).map (·.number)).Nodup := by
    rw [h.numbers]
    exact List.nodup_range'
  refine List.pairwise_map.2 ((List.pairwise_map.1 numbers).imp fun apart same => apart ?_)
  exact GuardStyle.guardMacro_injective same

end Built

end Tree

/-- Headers in different places of a tree are all on the disk that they were written to, below the
place that the tree's path leads to, and nothing else has changed there. -/
theorem Disk.Keeps.headers {d later : Disk} {output : TreeOutput} {guardStyle : GuardStyle}
    {headers : List Header}
    (h : d.Keeps (headers.map fun header => (header.path output, header.text guardStyle)) later)
    (nodup : (headers.map (·.placeInTree output)).Nodup) :
    ∃ top, (headers ≠ [] → later.resolve output.path = .ok top) ∧
      (∀ header ∈ headers,
        later.placeOf? (header.path output) = some (top ++ header.placeInTree output) ∧
        later.file? (top ++ header.placeInTree output) = some (header.text guardStyle)) ∧
      ∀ place, (∀ header ∈ headers, place ≠ top ++ header.placeInTree output) →
        later.file? place = d.file? place := by
  have leads {header : Header} (member : header ∈ headers) :
      ∃ top, later.resolve output.path = .ok top ∧
        later.placeOf? (header.path output) = some (top ++ header.placeInTree output) := by
    obtain ⟨place, found⟩ := h.placed _ (List.mem_map_of_mem member)
    obtain ⟨top, leads, -, rfl⟩ := Header.place_of_path found
    exact ⟨top, leads, found⟩
  obtain ⟨top, only⟩ : ∃ top, headers ≠ [] → later.resolve output.path = .ok top := by
    cases found : later.resolve output.path with
    | ok top => exact ⟨top, fun _ => rfl⟩
    | error e =>
      refine ⟨[], fun nonempty => ?_⟩
      obtain ⟨header, member⟩ := List.exists_mem_of_ne_nil headers nonempty
      obtain ⟨top, leads, -⟩ := leads member
      exact absurd (found.symm.trans leads) (by simp)
  have placed {header : Header} (member : header ∈ headers) :
      later.placeOf? (header.path output) = some (top ++ header.placeInTree output) := by
    obtain ⟨top', leads, found⟩ := leads member
    have same := (only (List.ne_nil_of_mem member)).symm.trans leads
    obtain rfl : top = top' := Except.ok.inj same
    exact found
  have distinct : (headers.map fun header =>
      (header.path output, header.text guardStyle)).Pairwise
        fun v w => later.placeOf? v.1 ≠ later.placeOf? w.1 := by
    apply List.pairwise_map.2
    refine List.Pairwise.imp_of_mem ?_ (List.pairwise_map.1 nodup)
    intro g g' left right apart same
    rw [placed left, placed right] at same
    exact apart (List.append_cancel_left (Option.some.inj same))
  refine ⟨top, only, fun header member => ⟨placed member, ?_⟩, fun place apart => ?_⟩
  · exact h.written distinct _ (List.mem_map_of_mem member) _ (placed member)
  · apply h.others place
    intro w member same
    obtain ⟨header, inside, rfl⟩ := List.mem_map.1 member
    rw [placed inside] at same
    exact apart header inside (Option.some.inj same).symm

namespace Job

/-- What the selected families call is selected besides them. -/
theorem isEmpty_selected {job : Job} (selects : job.families.isEmpty = false) :
    job.selected.isEmpty = false := by
  revert selects
  rw [selected]
  obtain ⟨distinct, enum⟩ := job.families
  cases distinct <;> cases enum <;> cases job.dependencies <;> decide

theorem plan_tree {job : Job} {output : TreeOutput} (selects : job.families.isEmpty = false)
    (tree : job.output = .tree output) :
    job.plan = .ok (Tree.plan output job.guardStyle job.selected job.range (.start job.style)) := by
  rw [Job.plan, check, selects, tree]
  rfl

/-- A bounded range that stops below the last size is written to a tree as a whole. The headers of
each selected family cover its part of the range one after the other, a header defines the macros of
its sizes in order and no other, and paths, places and guard macros are all different; so when no
step of a run fails, the files of the summary are on the disk as they were written, and nothing else
has changed: below the top of a tree that held no file there are no other files. -/
theorem tree_tiles_range (job : Job) (output : TreeOutput) (last : Nat)
    (accepted : job.style.IsAccepted) (selects : job.families.isEmpty = false)
    (tree : job.output = .tree output) (ends : job.range.last = some last)
    (small : last + 1 < sizeLimit) :
    ∃ (plan : Plan) (headers : List Header) (summary : Summary),
      job.plan = .ok plan ∧ plan.ending = .finished summary ∧
      Plan.writes plan.actions =
        headers.map (fun h => (h.path output, h.text job.guardStyle)) ∧
      summary.files = headers.map (·.path output) ∧
      (∀ family, job.selected.contains family = true →
        (Tree.ofFamily family headers).flatMap (·.span.sizes) =
          List.range' (max job.range.first family.least)
            (last + 1 - max job.range.first family.least) ∧
        summary.span family = Span.of? (max job.range.first family.least) last) ∧
      (∀ family, job.selected.contains family = false →
        Tree.ofFamily family headers = [] ∧ summary.span family = none) ∧
      (∀ h ∈ headers, h.span.first ≤ h.span.last ∧
        definedMacros (h.text job.guardStyle) =
          job.guardStyle.macros (GuardStyle.tag h.number) ++
            h.span.sizes.map (job.style.macroName h.family) ∧
        h.lines.map Prod.fst = h.span.sizes ∧
        ∀ entry ∈ h.lines, job.style.Prints h.family entry.1 entry.2) ∧
      summary.files.Nodup ∧
      (headers.map fun h => GuardStyle.guardMacro (GuardStyle.tag h.number)).Nodup ∧
      ∀ disk : Disk, (∀ fault, (plan.run disk).result ≠ .failed fault) →
        (plan.run disk).result = .finished summary ∧
        ∃ top : Place,
          (headers ≠ [] → (plan.run disk).disk.resolve output.path = .ok top) ∧
          (headers.map fun h => top ++ h.placeInTree output).Nodup ∧
          (∀ h ∈ headers,
            (plan.run disk).disk.placeOf? (h.path output) = some (top ++ h.placeInTree output) ∧
            (plan.run disk).disk.file? (top ++ h.placeInTree output) =
              some (h.text job.guardStyle)) ∧
          (∀ place, (∀ h ∈ headers, place ≠ top ++ h.placeInTree output) →
            (plan.run disk).disk.file? place = disk.file? place) ∧
          ((∀ below, disk.file? (top ++ below) = none) →
            ∀ below, ((plan.run disk).disk.file? (top ++ below)).isSome = true ↔
              ∃ h ∈ headers, below = h.placeInTree output) := by
  obtain ⟨checks, enums, middle, past, built⟩ :=
    Tree.exists_built output job.guardStyle job.selected job.range job.style
  have planned := plan_tree selects tree
  rw [Tree.plan] at planned
  generalize Tree.grown output job.guardStyle job.selected job.range (.start job.style) = grown
    at built planned
  rw [if_pos (built.completed last ends small)] at planned
  have places : ((Tree.headers grown.steps).map (·.placeInTree output)).Nodup := built.nodup_places
  refine ⟨_, Tree.headers grown.steps, _, planned, rfl, Tree.writes_actions [] grown.steps, rfl,
    fun family chosen => ?_, fun family other => ?_, fun h member => ?_, ?_, built.nodup_guards,
    fun disk fine => ?_⟩
  · obtain ⟨before, stop, adds, span⟩ := built.adds family
    rw [chosen] at adds
    exact ⟨adds.sizes ends small, span.trans (adds.span ends small)⟩
  · obtain ⟨before, stop, adds, span⟩ := built.adds family
    have empty := adds.unselected other
    refine ⟨empty, span.trans ?_⟩
    rw [adds.grows.past_eq empty]
    exact Tree.of?_pred (Tree.least_pos job.range family)
  · obtain ⟨before, follows⟩ := built.exists_follows member
    exact ⟨follows.forward, follows.definedMacros_text accepted job.guardStyle, follows.sizes,
      follows.printed⟩
  · exact built.nodup_paths
  · obtain ⟨result, keeps⟩ := Plan.keeps_performAll _ _ fine
    rw [Tree.writes_actions] at keeps
    obtain ⟨top, leads, there, others⟩ := keeps.headers places
    refine ⟨result, top, leads, ?_, there, others, fun fresh below => ⟨fun some_file => ?_, ?_⟩⟩
    · refine List.pairwise_map.2 ((List.pairwise_map.1 places).imp fun apart same => apart ?_)
      exact List.append_cancel_left same
    · by_contra none
      have kept := others (top ++ below) fun h member same =>
        none ⟨h, member, List.append_cancel_left same⟩
      have written : ((Plan.run _ disk).disk.file? (top ++ below)).isSome = true := some_file
      rw [Plan.run, kept, fresh below] at written
      exact Bool.false_ne_true written
    · rintro ⟨h, member, rfl⟩
      have written := (there h member).2
      show ((Plan.run _ disk).disk.file? (top ++ h.placeInTree output)).isSome = true
      rw [Plan.run, written]
      rfl

/-- Under a cap that no header can keep every macro up to size 3 gets a header of its own, and on
a blank disk there are no other files. -/
theorem tree_tiles_range_of_three :
    ∃ (plan : Plan) (headers : List Header) (top : Place),
      Job.plan ⟨⟨1, some 3⟩, ⟨false, true⟩, .added, .classic, .standard,
        .tree ⟨"out", 1, 2⟩, none⟩ = .ok plan ∧
      (Tree.ofFamily .distinct headers).flatMap (·.span.sizes) = [2, 3] ∧
      (Tree.ofFamily .enum headers).flatMap (·.span.sizes) = [1, 2, 3] ∧
      (plan.run Disk.blank).result =
        .finished
          ⟨some ⟨2, 3⟩, some ⟨1, 3⟩,
            ["out/areuniq/areuniq2.h", "out/areuniq/areuniq3.h", "out/uniqenum/uniqenum1.h",
              "out/uniqenum/uniqenum2.h", "out/uniqenum/uniqenum3.h"]⟩ ∧
      ∀ below, ((plan.run Disk.blank).disk.file? (top ++ below)).isSome = true ↔
        ∃ h ∈ headers, below = h.placeInTree ⟨"out", 1, 2⟩ := by
  obtain ⟨plan, headers, summary, planned, -, -, -, selected, -, -, -, -, runs⟩ :=
    tree_tiles_range
      ⟨⟨1, some 3⟩, ⟨false, true⟩, .added, .classic, .standard, .tree ⟨"out", 1, 2⟩, none⟩
      ⟨"out", 1, 2⟩ 3 Style.isAccepted_standard rfl rfl rfl (by decide)
  have ran : (Job.plan ⟨⟨1, some 3⟩, ⟨false, true⟩, .added, .classic, .standard,
      .tree ⟨"out", 1, 2⟩, none⟩).toOption.map (fun plan => (plan.run Disk.blank).result) =
        some (.finished
          ⟨some ⟨2, 3⟩, some ⟨1, 3⟩,
            ["out/areuniq/areuniq2.h", "out/areuniq/areuniq3.h", "out/uniqenum/uniqenum1.h",
              "out/uniqenum/uniqenum2.h", "out/uniqenum/uniqenum3.h"]⟩) := by decide +kernel
  rw [planned] at ran
  have finished := Option.some.inj ran
  obtain ⟨-, top, -, -, -, -, fresh⟩ := runs .blank fun fault failed =>
    nomatch finished.symm.trans failed
  exact ⟨plan, headers, top, planned, (selected .distinct rfl).1, (selected .enum rfl).1, finished,
    fresh fun below => rfl⟩

end Job

end EnumMacros
