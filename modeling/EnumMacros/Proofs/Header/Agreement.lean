import EnumMacros.Proofs.Header.Fitting
import EnumMacros.Proofs.Header.Tiling

/-! A tree and a single header for the same range hold the same definition lines. The tree asks for
the sizes where a header ends more than once, and for enum macros no further than it has checks, but
neither changes what is written: every line comes out as it does when each size is asked for once,
in order. -/

namespace EnumMacros

open Composer (Ready Steady)

/-! ### Definition lines -/

/-- Whether a line defines a macro with parameters. -/
def isDefinition (line : String) : Bool :=
  match Text.after? "#define ".toList line.toList with
  | some rest => (rest.dropWhile Identifier.isWordChar).head? == some '('
  | none => false

/-- The lines of a text that define macros with parameters: those of a header without its guard and
what it includes. -/
def definitionLines (text : String) : List String := (Text.split '\n' text).filter isDefinition

theorem isDefinition_written {line : Line} (named : Identifier.IsWord line.name) :
    isDefinition line.written = true := by
  have chars : line.written.toList = "#define ".toList ++
      (line.name.toList ++
        '(' :: (String.intercalate "," line.params ++ ")" ++ line.body).toList) := by
    simp [Line.written]
  rw [isDefinition, chars, Text.after?_append]
  simp only
  rw [List.dropWhile_append_of_pos named.2]
  rfl

theorem isDefinition_include (rest : String) : isDefinition ("#include \"" ++ rest) = false := by
  rw [isDefinition, String.toList_append]
  rfl

theorem definitions_openingLines (style : GuardStyle) (number : Nat) :
    (style.openingLines (GuardStyle.tag number)).filter isDefinition = [] := by
  cases style with
  | classic =>
    have opened : isDefinition ("#ifndef " ++ GuardStyle.guardMacro (GuardStyle.tag number)) =
        false := by
      rw [isDefinition, String.toList_append]
      rfl
    have plain : isDefinition ("#define " ++ GuardStyle.guardMacro (GuardStyle.tag number)) =
        false := by
      have word := GuardStyle.isWord_guardMacro number
      rw [isDefinition, String.toList_append, Text.after?_append, ← List.append_nil
        (GuardStyle.guardMacro (GuardStyle.tag number)).toList]
      simp only
      rw [List.dropWhile_append_of_pos word.2]
      rfl
    simp [GuardStyle.openingLines, opened, plain]
  | pragmaOnce | unguarded => rfl

theorem definitions_closingLines (style : GuardStyle) :
    style.closingLines.filter isDefinition = [] := by
  cases style <;> rfl

namespace Header

variable {style : Style} {h : Header}

/-- The definition lines of a header are its lines. -/
theorem definitionLines_text (guardStyle : GuardStyle)
    (includes : ∀ path ∈ h.included, IsOneLine path)
    (printed : ∀ entry ∈ h.lines, IsOneLine entry.2.written ∧ Identifier.IsWord entry.2.name) :
    definitionLines (h.text guardStyle) = h.lines.map fun entry => entry.2.written := by
  have one : ∀ line ∈ h.lineTexts guardStyle, IsOneLine line := by
    simp only [lineTexts, List.forall_mem_append, List.forall_mem_map]
    refine ⟨⟨⟨guardStyle.isOneLine_openingLines h.number, fun path member => ?_⟩,
      fun entry member => (printed entry member).1⟩, guardStyle.isOneLine_closingLines⟩
    exact ((show IsOneLine "#include \"" by decide).append (includes path member)).append
      (by decide)
  have no_include : (h.included.map fun path => "#include \"" ++ path ++ "\"").filter
      isDefinition = [] := by
    refine List.filter_eq_nil_iff.2 (List.forall_mem_map.2 fun path _ => ?_)
    rw [String.append_assoc, isDefinition_include]
    exact Bool.false_ne_true
  have all_lines : (h.lines.map fun entry => entry.2.written).filter isDefinition =
      h.lines.map fun entry => entry.2.written :=
    List.filter_eq_self.2 (List.forall_mem_map.2 fun entry member =>
      isDefinition_written (printed entry member).2)
  rw [definitionLines, text_eq, split_join one, lineTexts]
  simp only [List.filter_append, definitions_openingLines, no_include, all_lines,
    definitions_closingLines]
  rw [List.append_nil]
  exact List.append_nil _

/-- The lines of a header are written as after the sizes from `first` on. -/
def LinesFrom (style : Style) (first : Nat) (h : Header) : Prop :=
  ∀ entry ∈ h.lines, entry.2 = style.lineFrom first h.family entry.1

theorem LinesFrom.lines_eq {first : Nat} (lined : h.LinesFrom style first)
    (sizes : h.lines.map Prod.fst = h.span.sizes) :
    h.lines = h.span.sizes.map fun n => (n, style.lineFrom first h.family n) := by
  rw [← sizes, List.map_map]
  conv_lhs => rw [← List.map_id h.lines]
  exact List.map_congr_left fun entry member => Prod.ext rfl (lined entry member)

end Header

/-! ### Lines in order -/

namespace Tree

variable {style : Style} {output : TreeOutput} {guardStyle : GuardStyle} {family : Family}
  {range : Request} {base : Nat}

/-- Lines for sizes from `n` on as they are written after those from `base` on. -/
structure Replays (style : Style) (base : Nat) (family : Family) (n : Nat) (p : Printed) :
    Prop where
  lines : ∀ entry ∈ p.lines, entry.2 = style.lineFrom base family entry.1
  ready : Ready style base family (n + p.lines.length) p.composer

theorem replays_nil {n : Nat} {c : Composer} (ready : Ready style base family n c)
    (events : List Event) : Replays style base family n ⟨[], events, c⟩ :=
  ⟨fun _ member => absurd member List.not_mem_nil, ready⟩

theorem Replays.cons {n : Nat} {p : Printed} (h : Replays style base family (n + 1) p)
    (events : List Event) :
    Replays style base family n
      ⟨(n, style.lineFrom base family n) :: p.lines, events, p.composer⟩ := by
  refine ⟨List.forall_mem_cons.2 ⟨rfl, h.lines⟩, ?_⟩
  have later := h.ready
  rwa [Nat.add_right_comm] at later

theorem replays_fillFrom (frame : Span → Nat) (cap : Nat) {c : Composer} {first n bytes : Nat}
    (ready : Ready style base family n c) (from_base : base ≤ n) (least : family.least ≤ n)
    (small : n < sizeLimit) :
    Replays style base family n (fillFrom frame cap family range c first n bytes) := by
  fun_induction fillFrom frame cap family range c first n bytes with
  | case1 c n bytes reaches after same =>
    exact absurd ((ready.defineLine_eq from_base least small).symm.trans (by rw [same])) (by simp)
  | case2 c n bytes reaches line after same full =>
    have later := ready.define family from_base small
    rw [← Composer.snd_defineLine, same] at later
    exact replays_nil later _
  | case3 c n bytes reaches line after same fits more rest ih =>
    have written := ready.defineLine_eq from_base least small
    have later := ready.next from_base small
    rw [← Composer.snd_defineLine] at later
    rw [same] at written later
    obtain rfl := Option.some.inj written
    exact (ih later (Nat.le_succ_of_le from_base) (Nat.le_succ_of_le least) more).cons _
  | case4 c n bytes reaches line after same fits more =>
    have written := ready.defineLine_eq from_base least small
    have later := ready.next from_base small
    rw [← Composer.snd_defineLine] at later
    rw [same] at written later
    obtain rfl := Option.some.inj written
    exact (replays_nil later []).cons _
  | case5 c n bytes past => exact replays_nil ready _

/-- A size that has been found too large is asked for once more, and written as the first time. -/
theorem replays_nextLines {s : State} {first : Nat}
    (ready : Ready style base family first s.composer) (from_base : base ≤ first)
    (least : family.least ≤ first) (small : first < sizeLimit) :
    Replays style base family first (nextLines output guardStyle s family range first) := by
  have replays : Replays style base family first (fill output guardStyle s family range first) :=
    replays_fillFrom _ _ ready from_base least small
  fun_cases nextLines output guardStyle s family range first with
  | case1 filled entry rest same => exact replays
  | case2 filled empty bounded line after same =>
    have again : Ready style base family first filled.composer := by
      have later := replays.ready
      rwa [show (fill output guardStyle s family range first).lines = [] from empty] at later
    have written := again.defineLine_eq from_base least small
    have later := again.next from_base small
    rw [← Composer.snd_defineLine] at later
    rw [same] at written later
    obtain rfl : line = some (style.lineFrom base family first) := written
    exact (replays_nil later []).cons _
  | case3 filled empty ends => exact ⟨replays.lines, replays.ready⟩

/-- Every header of a family holds its lines as they are written in order. -/
theorem linesFrom_growFrom {s : State} {first : Nat}
    (ready : Ready style base family first s.composer) (from_base : base ≤ first)
    (least : family.least ≤ first) (small : first < sizeLimit) :
    Steady style (growFrom output guardStyle family range s first).state.composer ∧
      ∀ header ∈ headers (growFrom output guardStyle family range s first).steps,
        header.LinesFrom style base := by
  fun_induction growFrom output guardStyle family range s first with
  | case1 s first reaches next empty =>
    have replays : Replays style base family first next :=
      replays_nextLines ready from_base least small
    refine ⟨replays.ready.steady, fun header member => ?_⟩
    rw [headers_reports] at member
    exact absurd member List.not_mem_nil
  | case2 s first reaches next nonempty last found span rest ih =>
    have replays : Replays style base family first next :=
      replays_nextLines ready from_base least small
    have written : next.lines ≠ [] := by simpa using nonempty
    obtain ⟨meets, more⟩ := next_of_headerEnd? found (List.length_pos_iff.2 written)
    have later : Ready style base family (last + 1) next.composer := by
      rw [meets]
      exact replays.ready
    obtain ⟨steady, lined⟩ := ih later (by omega) (by omega) more
    refine ⟨steady, ?_⟩
    simp only [headers_reports_write]
    exact List.forall_mem_cons.2 ⟨replays.lines, lined⟩
  | case3 s first reaches next nonempty exhausted =>
    have replays : Replays style base family first next :=
      replays_nextLines ready from_base least small
    refine ⟨replays.ready.steady, fun header member => ?_⟩
    rw [headers_reports] at member
    exact absurd member List.not_mem_nil
  | case4 s first stopped => exact ⟨ready.steady, fun _ member => absurd member List.not_mem_nil⟩

theorem part_first_lt {least : Nat} {part : Request} (starts : range.from? least = some part)
    (small : range.first < sizeLimit) (few : least < sizeLimit) : part.first < sizeLimit := by
  rw [(from?_eq_some starts).1]
  exact Nat.max_lt.2 ⟨small, few⟩

theorem linesFrom_grow {s : State} {part : Request}
    (ready : Ready style range.first family range.first s.composer)
    (starts : range.from? family.least = some part) (small : range.first < sizeLimit) :
    Steady style (grow output guardStyle family part s).state.composer ∧
      ∀ header ∈ headers (grow output guardStyle family part s).steps,
        header.LinesFrom style range.first := by
  have few : family.least < sizeLimit := by cases family <;> decide
  have bound := part_first_lt starts small few
  have later := ready.least
  obtain ⟨first, -, -⟩ := from?_eq_some starts
  rw [← first] at later
  rw [headers_grow]
  exact linesFrom_growFrom later (by omega) (by omega) bound

/-- The enum macros do not depend on what the checks have left behind. -/
theorem linesFrom_withEnums (selection : Selection) {asked : Request} {steps : List Step}
    {s : State} (steady : Steady style s.composer) (small : asked.first < sizeLimit)
    (lined : ∀ header ∈ headers steps, header.LinesFrom style asked.first) :
    ∀ header ∈ headers (withEnums output guardStyle selection asked steps s).steps,
      header.LinesFrom style asked.first := by
  rw [withEnums]
  split
  · exact lined
  · next part starts =>
    have starts' := (Option.ite_none_right_eq_some.1 starts).2
    have ready : Ready style asked.first .enum asked.first s.composer := steady
    rw [headers_append]
    exact List.forall_mem_append.2 ⟨lined, (linesFrom_grow ready starts' small).2⟩

/-- Every header of a tree holds its lines as they are written when sizes are asked for in order,
family by family. -/
theorem linesFrom_grown (output : TreeOutput) (guardStyle : GuardStyle) (selection : Selection)
    (small : range.first < sizeLimit) :
    ∀ header ∈ headers (grown output guardStyle selection range (.start style)).steps,
      header.LinesFrom style range.first := by
  rw [grown, growDistinct_eq]
  cases starts : (if selection.distinct then range.from? Family.distinct.least else none) with
  | none =>
    exact linesFrom_withEnums selection (Composer.steady_start style) small
      fun _ member => absurd member List.not_mem_nil
  | some part =>
    have starts' := (Option.ite_none_right_eq_some.1 starts).2
    have ready : Ready style range.first .distinct range.first (Composer.start style) :=
      Composer.ready_start style range.first .distinct
    have grows : Steady style (grow output guardStyle .distinct part
          ⟨.start style, .empty, 0⟩).state.composer ∧
        ∀ header ∈ headers (grow output guardStyle .distinct part ⟨.start style, .empty, 0⟩).steps,
          header.LinesFrom style range.first := linesFrom_grow ready starts' small
    simp only [Option.map_some, Option.getD_some]
    split_ifs
    · exact linesFrom_withEnums selection grows.1 small grows.2
    · exact grows.2

/-- The lines that a family has in a tree are those of its part of the range. -/
theorem Adds.lines {groupLength past last : Nat} {selected : Bool} {before added : List Header}
    (h : Adds style groupLength family selected range before added past)
    (lined : ∀ header ∈ added, header.LinesFrom style range.first)
    (ends : range.last = some last) (small : last + 1 < sizeLimit) :
    added.flatMap (·.lines) =
      if selected then style.linesBetween range.first (last + 1) family else [] := by
  have each : ∀ header ∈ added, header.lines =
      header.span.sizes.map fun n => (n, style.lineFrom range.first family n) := by
    intro header member
    obtain ⟨earlier, later, place⟩ := List.append_of_mem member
    rw [(lined header member).lines_eq (h.grows.follows place).sizes,
      h.grows.family_eq header member]
  cases selected with
  | false =>
    rw [h.unselected rfl]
    rfl
  | true =>
    rw [List.flatMap_congr each, ← List.map_flatMap, h.sizes ends small]
    rfl

end Tree

theorem Selection.flatMap_toList {α : Type} (selection : Selection) (f : Family → List α) :
    selection.toList.flatMap f =
      (if selection.distinct then f .distinct else []) ++
        if selection.enum then f .enum else [] := by
  obtain ⟨_ | _, _ | _⟩ := selection <;> simp [toList, List.filter, contains]

/-- The lines of a tree are those of its range, family by family. -/
theorem Tree.Grown.Built.lines {style : Style} {groupLength middle past last : Nat}
    {selection : Selection} {range : Request} {checks enums : List Header} {tree : Grown}
    (h : tree.Built style groupLength selection range checks enums middle past)
    (lined : ∀ header ∈ headers tree.steps, header.LinesFrom style range.first)
    (ends : range.last = some last) (small : last + 1 < sizeLimit) :
    (headers tree.steps).flatMap (·.lines) =
      selection.toList.flatMap (style.linesBetween range.first (last + 1)) := by
  rw [h.joined, List.forall_mem_append] at lined
  rw [h.joined, List.flatMap_append, h.add_checks.lines lined.1 ends small,
    h.add_enums.lines lined.2 ends small, Selection.flatMap_toList]

/-! ### Runs -/

/-- What the file holds that a path leads to, if there is one. -/
def Disk.read? (d : Disk) (path : String) : Option String := (d.placeOf? path).bind d.file?

theorem Disk.Keeps.read? {d later : Disk} {output : TreeOutput} {guardStyle : GuardStyle}
    {headers : List Header}
    (h : d.Keeps (headers.map fun header => (header.path output, header.text guardStyle)) later)
    (nodup : (headers.map (·.placeInTree output)).Nodup) :
    (headers.map (·.path output)).map later.read? =
      (headers.map (·.text guardStyle)).map some := by
  obtain ⟨top, -, there, -⟩ := h.headers nodup
  rw [List.map_map, List.map_map]
  refine List.map_congr_left fun header member => ?_
  obtain ⟨place, contents⟩ := there header member
  exact (congrArg (·.bind later.file?) place).trans contents

theorem Style.Prints.isDefinitionLine {style : Style} {family : Family} {n : Nat} {line : Line}
    (h : style.Prints family n line) (small : n < sizeLimit) (accepted : style.IsAccepted) :
    IsOneLine line.written ∧ Identifier.IsWord line.name := by
  refine ⟨h.isOneLine small accepted, ?_⟩
  rw [h.name_eq small]
  exact accepted.isWord_macroName family n

theorem Tree.Grown.Built.definitionLines_texts {style : Style} {guardStyle : GuardStyle}
    {groupLength middle past last : Nat} {selection : Selection} {range : Request}
    {checks enums : List Header} {tree : Grown}
    (h : tree.Built style groupLength selection range checks enums middle past)
    (lined : ∀ header ∈ headers tree.steps, header.LinesFrom style range.first)
    (accepted : style.IsAccepted) (ends : range.last = some last) (small : last + 1 < sizeLimit) :
    ((headers tree.steps).map (·.text guardStyle)).flatMap definitionLines =
      (selection.toList.flatMap (style.linesBetween range.first (last + 1))).map
        fun entry => entry.2.written := by
  have each : ∀ header ∈ headers tree.steps,
      definitionLines (header.text guardStyle) =
        header.lines.map fun entry => entry.2.written := by
    intro header member
    obtain ⟨before, follows⟩ := h.exists_follows member
    refine header.definitionLines_text guardStyle (fun path inside feed => ?_)
      fun entry inside => (follows.printed entry inside).isDefinitionLine
        (follows.small inside) accepted
    exact (follows.quotable inside _ feed).1 rfl
  rw [List.flatMap_map, List.flatMap_congr each, ← List.map_flatMap, h.lines lined ends small]

/-- A single header is laid out as a header of a tree that includes no other. -/
theorem Single.definitionLines_text (guardStyle : GuardStyle) {lines : List (Nat × Line)}
    (printed : ∀ entry ∈ lines, IsOneLine entry.2.written ∧ Identifier.IsWord entry.2.name) :
    definitionLines (guardStyle.opening (GuardStyle.tag 0) ++ Printed.text lines ++
      guardStyle.closing) = lines.map fun entry => entry.2.written := by
  -- The family of a header and its span are not written, its number only where the guard has it.
  let header : Header := ⟨.distinct, ⟨0, 0⟩, 0, [], lines⟩
  have same : guardStyle.opening (GuardStyle.tag 0) ++ Printed.text lines ++ guardStyle.closing =
      header.text guardStyle := by
    rw [Header.text]
    show _ = _ ++ "" ++ _ ++ _
    rw [String.append_empty]
  rw [same]
  exact header.definitionLines_text guardStyle (fun _ member => absurd member List.not_mem_nil)
    printed

namespace Job

/-- The definition lines for the sizes of a job up to the last, family by family. -/
def definitions (job : Job) (last : Nat) : List String :=
  (job.selected.toList.flatMap (job.style.linesBetween job.range.first (last + 1))).map
    fun entry => entry.2.written

theorem definitionLines_singleText (job : Job) (accepted : job.style.IsAccepted) {last : Nat}
    (small : last < sizeLimit) :
    definitionLines (job.singleText job.range.first last) = job.definitions last := by
  rw [singleText_eq job _ small]
  refine Single.definitionLines_text job.guardStyle fun entry member => ?_
  obtain ⟨family, -, inside⟩ := List.mem_flatMap.1 member
  obtain ⟨n, size, rfl⟩ := List.mem_map.1 inside
  have bounds := List.mem_range'_1.1 size
  have prints := job.style.prints_lineFrom (show job.range.first ≤ n by omega)
    (show family.least ≤ n by omega) (by omega)
  exact prints.isDefinitionLine (by omega) accepted

/-- A tree for a bounded range and an uncapped single header for the same define the same macros in
the same lines: whatever the cap on the headers of the tree and their places, their definition lines
taken together, header after header, are those of the single header. -/
theorem tree_agrees_with_single (job : Job) (output : TreeOutput) (target : Output) (last : Nat)
    (accepted : job.style.IsAccepted) (selects : job.families.isEmpty = false)
    (tree : job.output = .tree output) (single : ∀ output, target ≠ .tree output)
    (ends : job.range.last = some last) (forward : job.range.first ≤ last)
    (small : last + 1 < sizeLimit) :
    ∃ (treePlan singlePlan : Plan) (summary : Summary),
      job.plan = .ok treePlan ∧
      Job.plan { job with output := target, headerCap := none } = .ok singlePlan ∧
      (∀ disk : Disk, (∀ fault, (treePlan.run disk).result ≠ .failed fault) →
        (treePlan.run disk).result = .finished summary ∧
        ∃ texts : List String, summary.files.map (treePlan.run disk).disk.read? = texts.map some ∧
          texts.flatMap definitionLines = job.definitions last) ∧
      ∀ disk : Disk,
        (∀ path, target = .file path → ∀ fault, (singlePlan.run disk).result ≠ .failed fault) →
        ∃ text, target.Receives text disk (singlePlan.run disk) ∧
          definitionLines text = job.definitions last := by
  -- Without a cap nothing is asked for before the single header is written.
  let whole : Job := { job with output := target, headerCap := none }
  have found : whole.singleSpan (.start whole.style) =
      (some ⟨job.range.first, last⟩, [], .start whole.style) := by
    show (job.range.last.bind (Span.of? job.range.first), _, _) = _
    rw [ends, Option.bind_some, Span.of?, if_pos forward]
  obtain ⟨summary', delivers⟩ := receives_singlePlan single found
    (fun family _ => Composer.ready_start whole.style job.range.first family)
    (Nat.lt_of_succ_lt small)
  obtain ⟨checks, enums, middle, past, built⟩ :=
    Tree.exists_built output job.guardStyle job.selected job.range job.style
  have lined : ∀ header ∈ Tree.headers (Tree.grown output job.guardStyle job.selected job.range
      (.start job.style)).steps, header.LinesFrom job.style job.range.first :=
    Tree.linesFrom_grown output job.guardStyle job.selected
      (Nat.lt_of_le_of_lt forward (Nat.lt_of_succ_lt small))
  have planned := plan_tree selects tree
  rw [Tree.plan] at planned
  generalize Tree.grown output job.guardStyle job.selected job.range (.start job.style) = grown
    at built planned lined
  rw [if_pos (built.completed last ends small)] at planned
  let summary : Summary :=
    ⟨grown.distinct, grown.enum, (Tree.headers grown.steps).map (·.path output)⟩
  refine ⟨_, whole.singlePlan, summary, planned, plan_single selects single (.inl ?_),
    fun disk fine => ?_, fun disk fine => ?_⟩
  · show job.range.last.isSome = true
    rw [ends]
    rfl
  · obtain ⟨result, keeps⟩ := Plan.keeps_performAll _ _ fine
    rw [Tree.writes_actions] at keeps
    exact ⟨result, _, keeps.read? built.nodup_places,
      built.definitionLines_texts lined accepted ends small⟩
  · exact ⟨_, (delivers disk fine).2,
      definitionLines_singleText whole accepted (Nat.lt_of_succ_lt small)⟩

/-- Five headers of a macro each hold the lines that are printed for all sizes up to 3. -/
theorem tree_agrees_with_single_up_to_three :
    ∃ (treePlan singlePlan : Plan) (texts : List String),
      Job.plan ⟨⟨1, some 3⟩, ⟨false, true⟩, .added, .classic, .standard,
        .tree ⟨"out", 1, 2⟩, none⟩ = .ok treePlan ∧
      Job.plan ⟨⟨1, some 3⟩, ⟨false, true⟩, .added, .classic, .standard, .stdout, none⟩ =
        .ok singlePlan ∧
      ["out/areuniq/areuniq2.h", "out/areuniq/areuniq3.h", "out/uniqenum/uniqenum1.h",
        "out/uniqenum/uniqenum2.h", "out/uniqenum/uniqenum3.h"].map
          (treePlan.run Disk.blank).disk.read? = texts.map some ∧
      texts.flatMap definitionLines = definitionLines (singlePlan.run Disk.blank).printed := by
  obtain ⟨treePlan, singlePlan, summary, planned, single, trees, singles⟩ :=
    tree_agrees_with_single
      ⟨⟨1, some 3⟩, ⟨false, true⟩, .added, .classic, .standard, .tree ⟨"out", 1, 2⟩, none⟩
      ⟨"out", 1, 2⟩ .stdout 3 Style.isAccepted_standard rfl rfl (fun _ => Output.noConfusion) rfl
      (by decide) (by decide)
  have ran : (Job.plan ⟨⟨1, some 3⟩, ⟨false, true⟩, .added, .classic, .standard,
      .tree ⟨"out", 1, 2⟩, none⟩).toOption.map (fun plan => (plan.run Disk.blank).result) =
        some (.finished
          ⟨some ⟨2, 3⟩, some ⟨1, 3⟩,
            ["out/areuniq/areuniq2.h", "out/areuniq/areuniq3.h", "out/uniqenum/uniqenum1.h",
              "out/uniqenum/uniqenum2.h", "out/uniqenum/uniqenum3.h"]⟩) := by decide +kernel
  rw [planned] at ran
  have finished := Option.some.inj ran
  obtain ⟨result, texts, read, lines⟩ := trees .blank fun fault failed =>
    nomatch finished.symm.trans failed
  obtain ⟨text, ⟨printed, -⟩, lines'⟩ := singles .blank fun _ => Output.noConfusion
  obtain rfl := Result.finished.inj (finished.symm.trans result)
  refine ⟨treePlan, singlePlan, texts, planned, single, read, ?_⟩
  rw [lines, printed, lines']

end Job

end EnumMacros
