import EnumMacros.Proofs.Header.Sizing
import EnumMacros.Proofs.Header.Tiling

/-! How tightly a tree is packed. A header above the cap holds a single macro, and a header within
the cap that another one of its family follows would pass the cap with one macro more: with the
guard it has, and with the includes and the directory that the longer span gives it. -/

namespace EnumMacros

open Composer (Reached)

/-- A header of a family after some headers and before the next one, if there is one, when as much
is put into it as the cap allows. In a bounded range it may be above the cap all the same. -/
structure Header.Packed (output : TreeOutput) (guardStyle : GuardStyle) (family : Family)
    (bounded : Bool) (before : List Header) (h : Header) (next? : Option Header) : Prop where
  placed : h = .after output.groupLength before family h.span h.lines
  alone : output.sizeCap < h.size guardStyle → h.lines.length = 1 ∧ bounded = true
  full : h.size guardStyle ≤ output.sizeCap → ∀ next ∈ next?, next.family = family →
    ∃ line others, next.lines = (h.span.last + 1, line) :: others ∧
      output.sizeCap < (Header.after output.groupLength before family
        ⟨h.span.first, h.span.last + 1⟩ (h.lines ++ [(h.span.last + 1, line)])).size guardStyle

namespace Tree

variable {style : Style} {output : TreeOutput} {guardStyle : GuardStyle} {family : Family}
  {range : Request}

/-! ### The headers of a family -/

/-- The first header of a growth holds the lines that come next. -/
theorem growFrom_first {s : State} {first : Nat} {header : Header}
    (member : header ∈ (headers (growFrom output guardStyle family range s first).steps).head?) :
    range.reaches first = true ∧ first < sizeLimit ∧
      (nextLines output guardStyle s family range first).lines ≠ [] ∧
      header.lines = (nextLines output guardStyle s family range first).lines := by
  revert member
  fun_cases growFrom output guardStyle family range s first with
  | case1 reaches next empty =>
    intro member
    rw [headers_reports] at member
    exact absurd member (by simp)
  | case2 reaches next nonempty last found span rest =>
    intro member
    rw [headers_reports_write, List.head?_cons, Option.mem_some_iff] at member
    obtain rfl := member
    have small := (headerEnd?_eq_some_iff.1 found).1
    exact ⟨reaches, by omega, by simpa using nonempty, rfl⟩
  | case3 reaches next nonempty exhausted =>
    intro member
    rw [headers_reports] at member
    exact absurd member (by simp)
  | case4 stopped =>
    intro member
    exact absurd member (by simp [headers])

theorem packed_growFrom (s : State) (first : Nat) :
    ∀ before, s.Records style before → ∀ earlier header later,
      headers (growFrom output guardStyle family range s first).steps =
        earlier ++ header :: later →
      header.Packed output guardStyle family range.hasEnd (before ++ earlier) later.head? := by
  fun_induction growFrom output guardStyle family range s first with
  | case1 s first reaches next empty =>
    intro before h earlier header later place
    rw [headers_reports] at place
    exact absurd place (by simp)
  | case2 s first reaches next nonempty last found span rest ih =>
    intro before h earlier header later place
    have run : next.IsRun style family range first := isRun_nextLines h.composer reaches
    have written : next.lines ≠ [] := by simpa using nonempty
    have longer := List.length_pos_iff.2 written
    obtain ⟨small, rfl⟩ := headerEnd?_eq_some_iff.1 found
    rw [headers_reports_write] at place
    cases earlier with
    | nil =>
      -- What has no room in this header is the first line of the next, if there is one.
      obtain ⟨rfl, rfl⟩ := List.cons.inj place
      have size := h.size_after output guardStyle family
      have same := h.header_eq output family span next.lines
      have own : (s.header output family span next.lines).size guardStyle =
          s.frame output guardStyle family span + Printed.size next.lines := by
        rw [same, size]
      have meets : span.last + 1 = first + next.lines.length := Nat.sub_add_cancel (by omega)
      rw [List.append_nil]
      refine ⟨same, fun large => ?_, fun within header' member _ => ?_⟩
      · rw [own] at large
        exact nextLines_alone h.composer written large
      · obtain ⟨goes_on, -, some_line, lines⟩ := growFrom_first member
        obtain ⟨line, others, begun, found⟩ :=
          nextLines_first (s := s.add family span next.composer) run.composer (meets ▸ small)
            some_line
        rw [own] at within
        refine ⟨line, others, ?_, ?_⟩
        · show header'.lines = (span.last + 1, line) :: others
          rw [lines, begun]
        · show output.sizeCap < (Header.after output.groupLength before family
            ⟨first, span.last + 1⟩ (next.lines ++ [(span.last + 1, line)])).size guardStyle
          have full : output.sizeCap < s.frame output guardStyle family ⟨first, span.last + 1⟩ +
              Printed.size next.lines + line.size :=
            nextLines_full h.composer reaches written within meets.symm goes_on (meets ▸ small)
              found
          rw [size, Printed.size_append, Printed.size_singleton, ← Nat.add_assoc]
          exact full
    | cons other earlier =>
      obtain ⟨rfl, rest_place⟩ := List.cons.inj place
      have records : (s.add family span next.composer).Records style
          (before ++ [s.header output family span next.lines]) := h.add run.composer
      have later_packed := ih _ records earlier header later rest_place
      rwa [List.append_assoc] at later_packed
  | case3 s first reaches next nonempty exhausted =>
    intro before h earlier header later place
    rw [headers_reports] at place
    exact absurd place (by simp)
  | case4 s first stopped =>
    intro before h earlier header later place
    exact absurd place (by simp [headers])

/-- An open range ends, unless the sizes are exhausted, at a macro that is above the cap by
itself. -/
theorem exists_stop_growFrom (ends : range.hasEnd = false) (s : State) (first : Nat) :
    ∀ before, s.Records style before → family.least ≤ first → first < sizeLimit →
      (growFrom output guardStyle family range s first).completed = true →
      ∃ past line,
        Grows style output.groupLength family before first
          (headers (growFrom output guardStyle family range s first).steps) past ∧
        style.Prints family past line ∧
        output.sizeCap < (Header.after output.groupLength
          (before ++ headers (growFrom output guardStyle family range s first).steps) family
          (.single past) [(past, line)]).size guardStyle := by
  have reaches_all (n : Nat) : range.reaches n = true := by
    rw [Request.hasEnd, Option.isSome_eq_false_iff, Option.isNone_iff_eq_none] at ends
    rw [Request.reaches, ends]
    rfl
  fun_induction growFrom output guardStyle family range s first with
  | case1 s first reaches next empty =>
    intro before h least small completed
    obtain ⟨line, found⟩ := Style.exists_prints h.composer least small
    refine ⟨first, line, ?_, ⟨_, h.composer, found⟩, ?_⟩
    · rw [headers_reports]
      exact .stop before first
    · rw [headers_reports, List.append_nil, h.size_after, Printed.size_singleton, Span.single]
      exact nextLines_stops h.composer reaches small (List.isEmpty_iff.1 empty) found
  | case2 s first reaches next nonempty last found span rest ih =>
    intro before h least _ completed
    have run : next.IsRun style family range first := isRun_nextLines h.composer reaches
    have written : next.lines ≠ [] := by simpa using nonempty
    have longer := List.length_pos_iff.2 written
    obtain ⟨small, rfl⟩ := headerEnd?_eq_some_iff.1 found
    let header := s.header output family span next.lines
    have follows : header.Follows style output.groupLength before := h.follows run written small
    have records : (s.add family span next.composer).Records style (before ++ [header]) :=
      h.add run.composer
    obtain ⟨stop, line, grows, prints, above⟩ := ih _ records (by omega) (by omega) completed
    rw [headers_reports_write]
    refine ⟨stop, line, .next rfl follows grows, prints, ?_⟩
    rw [List.append_cons]
    exact above
  | case3 s first reaches next nonempty exhausted =>
    intro before h least small completed
    exact absurd completed Bool.false_ne_true
  | case4 s first stopped => exact absurd (reaches_all first) stopped

/-! ### Both families -/

/-- The headers that a family adds for a part of a range, and none without such a part. Where the
tree as a whole has gone well, so has their growth. -/
def Emits (style : Style) (output : TreeOutput) (guardStyle : GuardStyle) (family : Family)
    (before added : List Header) (completed : Bool) : Option Request → Prop
  | none => added = []
  | some part =>
    ∃ s : State, s.Records style before ∧
      added = headers (growFrom output guardStyle family part s part.first).steps ∧
      (completed = true →
        (growFrom output guardStyle family part s part.first).completed = true)

/-- The part of a range that a family is generated for is bounded like the range. -/
theorem hasEnd_of_mem_part {part : Request} {selected : Bool} {least : Nat}
    (member : part ∈ if selected then range.from? least else none) :
    part.hasEnd = range.hasEnd := by
  obtain ⟨-, starts⟩ := Option.ite_none_right_eq_some.1 member
  obtain ⟨-, last, -⟩ := from?_eq_some starts
  rw [Request.hasEnd, Request.hasEnd, last]

theorem exists_emits_withEnums (output : TreeOutput) (guardStyle : GuardStyle)
    (selection : Selection) (asked : Request) {steps : List Step} {s : State}
    (h : s.Records style (headers steps)) :
    ∃ enums, headers (withEnums output guardStyle selection asked steps s).steps =
        headers steps ++ enums ∧
      Emits style output guardStyle .enum (headers steps) enums
        (withEnums output guardStyle selection asked steps s).completed
        (if selection.enum then asked.from? Family.enum.least else none) := by
  rw [withEnums]
  cases (if selection.enum then asked.from? Family.enum.least else none) with
  | none => exact ⟨[], (List.append_nil _).symm, rfl⟩
  | some part =>
    refine ⟨_, headers_append _ _, s, h, headers_grow output guardStyle .enum part s, ?_⟩
    exact fun completed => completed

/-- A tree is the growth of the checks and then that of the enum macros, whose range is bounded once
there are checks, whether or not the request was. -/
theorem exists_emits (output : TreeOutput) (guardStyle : GuardStyle) (selection : Selection)
    (range : Request) (style : Style) :
    ∃ checks enums part?,
      headers (grown output guardStyle selection range (.start style)).steps = checks ++ enums ∧
      Emits style output guardStyle .distinct [] checks
        (grown output guardStyle selection range (.start style)).completed
        (if selection.distinct then range.from? Family.distinct.least else none) ∧
      Emits style output guardStyle .enum checks enums
        (grown output guardStyle selection range (.start style)).completed part? ∧
      (part? = (if selection.enum then range.from? Family.enum.least else none) ∨
        selection.distinct = true ∧ ∀ part ∈ part?, part.hasEnd = true) := by
  have fresh : State.Records style [] ⟨.start style, .empty, 0⟩ := ⟨.start, rfl, rfl⟩
  rw [grown, growDistinct_eq]
  cases starts : (if selection.distinct then range.from? Family.distinct.least else none) with
  | none =>
    obtain ⟨enums, joined, emits⟩ := exists_emits_withEnums output guardStyle selection range
      (show State.Records style (headers []) _ from fresh)
    exact ⟨[], enums, _, joined, rfl, emits, .inl rfl⟩
  | some part =>
    obtain ⟨chosen, starts'⟩ := Option.ite_none_right_eq_some.1 starts
    obtain ⟨middle, covers⟩ := exists_covers_grow output guardStyle fresh starts'
    have records := covers.records
    have same := headers_grow output guardStyle .distinct part ⟨.start style, .empty, 0⟩
    have whole : (grow output guardStyle .distinct part ⟨.start style, .empty, 0⟩).completed =
      (growFrom output guardStyle .distinct part ⟨.start style, .empty, 0⟩ part.first).completed :=
        rfl
    simp only [Option.map_some, Option.getD_some]
    generalize grow output guardStyle .distinct part ⟨.start style, .empty, 0⟩ = growth at *
    -- Once the sizes are exhausted no enum macros are asked for.
    by_cases completed : growth.completed = true
    · obtain ⟨enums, joined, emits⟩ := exists_emits_withEnums output guardStyle selection
        (enumRange range (some growth)) records
      rw [if_pos completed]
      refine ⟨headers growth.steps, enums, _, joined,
        ⟨_, fresh, same, fun _ => whole.symm.trans completed⟩, emits,
        .inr ⟨chosen, fun other found => ?_⟩⟩
      exact (hasEnd_of_mem_part found).trans rfl
    · rw [if_neg completed]
      refine ⟨headers growth.steps, [], none, (List.append_nil _).symm,
        ⟨_, fresh, same, fun done => absurd done Bool.false_ne_true⟩, rfl,
        .inr ⟨chosen, fun other found => absurd found (by simp)⟩⟩

theorem Emits.packed {before added : List Header} {completed : Bool} {part? : Option Request}
    (h : Emits style output guardStyle family before added completed part?)
    {earlier later : List Header} {header : Header} (place : added = earlier ++ header :: later) :
    ∃ part ∈ part?, header.Packed output guardStyle family part.hasEnd (before ++ earlier)
      later.head? := by
  match part?, h with
  | none, empty =>
    rw [show added = [] from empty] at place
    exact absurd place (by simp)
  | some part, h =>
    obtain ⟨s, records, same, -⟩ := h
    rw [same] at place
    exact ⟨part, rfl, packed_growFrom s part.first before records earlier header later place⟩

end Tree

namespace Header.Packed

variable {output : TreeOutput} {guardStyle : GuardStyle} {family : Family} {bounded : Bool}
  {before : List Header} {header : Header} {next? : Option Header}

theorem family_eq (h : header.Packed output guardStyle family bounded before next?) :
    header.family = family := congrArg Header.family h.placed

/-- Headers of another family may follow. -/
theorem weaken (h : header.Packed output guardStyle family bounded before next?)
    {other? : Option Header} (same : ∀ next ∈ other?, next.family = family → next ∈ next?) :
    header.Packed output guardStyle family bounded before other? :=
  ⟨h.placed, h.alone, fun within next member own =>
    h.full within next (same next member own) own⟩

end Header.Packed

namespace Tree

variable {style : Style} {output : TreeOutput} {guardStyle : GuardStyle} {range : Request}
  {selection : Selection}

/-- Every header of a tree is packed. None is above the cap in an open range, but for the enum
macros after checks. -/
theorem exists_packed {earlier later : List Header} {header : Header}
    (place : headers (grown output guardStyle selection range (.start style)).steps =
      earlier ++ header :: later) :
    ∃ bounded,
      header.Packed output guardStyle header.family bounded earlier later.head? ∧
      (bounded = true →
        range.hasEnd = true ∨ header.family = .enum ∧ selection.distinct = true) := by
  obtain ⟨checks, enums, part?, joined, of_checks, of_enums, asked⟩ :=
    exists_emits output guardStyle selection range style
  rw [joined] at place
  have enum_packed {within later : List Header} {header : Header}
      (inside : enums = within ++ header :: later) :
      ∃ bounded, header.Packed output guardStyle header.family bounded (checks ++ within)
        later.head? ∧ (bounded = true →
          range.hasEnd = true ∨ header.family = .enum ∧ selection.distinct = true) := by
    obtain ⟨part, member, packed⟩ := of_enums.packed inside
    have family := packed.family_eq
    refine ⟨part.hasEnd, by rwa [family], fun bounded => ?_⟩
    rcases asked with rfl | ⟨chosen, -⟩
    · exact .inl ((hasEnd_of_mem_part member).symm.trans bounded)
    · exact .inr ⟨family, chosen⟩
  rcases List.append_eq_append_iff.1 place with
    ⟨within, rfl, inside⟩ | ⟨rest, checks_place, rest_place⟩
  · exact enum_packed inside
  · cases rest with
    | nil =>
      rw [List.append_nil] at checks_place
      subst checks_place
      have first := enum_packed (show enums = [] ++ header :: later from rest_place.symm)
      rwa [List.append_nil] at first
    | cons other rest =>
      obtain ⟨rfl, rfl⟩ := List.cons.inj rest_place
      obtain ⟨part, member, packed⟩ := of_checks.packed checks_place
      have family := packed.family_eq
      rw [family]
      refine ⟨part.hasEnd, packed.weaken fun next following same => ?_, fun bounded => ?_⟩
      · -- After the last check there are enum macros, which are of another family.
        cases rest with
        | cons _ _ => exact following
        | nil =>
          obtain ⟨others, enums_place⟩ := List.head?_eq_some_iff.1 following
          obtain ⟨_, -, own⟩ := of_enums.packed (show enums = [] ++ next :: others from enums_place)
          exact absurd (same.symm.trans own.family_eq) (by decide)
      · exact .inl ((hasEnd_of_mem_part member).symm.trans bounded)

end Tree

/-- A header comes right before the next one of its family. -/
theorem Header.family_eq_of_ordered {h next g : Header} {others : List Header}
    (ordered : (h :: next :: others).Pairwise Header.Precedes) (member : g ∈ next :: others)
    (same : g.family = h.family) : next.family = h.family := by
  obtain ⟨after_first, ordered⟩ := List.pairwise_cons.1 ordered
  obtain ⟨after_next, -⟩ := List.pairwise_cons.1 ordered
  rcases List.mem_cons.1 member with rfl | member
  · exact same
  · rcases after_first next List.mem_cons_self with ⟨equal, -⟩ | ⟨check, enum⟩
    · exact equal.symm
    · rcases after_next g member with ⟨equal, -⟩ | ⟨check', -⟩
      · rw [← same, ← equal]
      · exact check'.trans check.symm

/-- In a run that does not fail every header is on the disk as it was written. -/
theorem Disk.Keeps.exists_place {d later : Disk} {output : TreeOutput} {guardStyle : GuardStyle}
    {headers : List Header}
    (h : d.Keeps (headers.map fun header => (header.path output, header.text guardStyle)) later)
    (nodup : (headers.map (·.placeInTree output)).Nodup) :
    ∀ header ∈ headers, ∃ place, later.placeOf? (header.path output) = some place ∧
      later.file? place = some (header.text guardStyle) := by
  obtain ⟨top, -, there, -⟩ := h.headers nodup
  exact fun header member => ⟨_, there header member⟩

namespace Job

/-- A tree is packed as tightly as the cap allows. The headers are written one after the other, each
as one that comes after those before it; a header above the cap holds a single macro; and where
another header of the family follows one within the cap, the next header starts with a macro with
which the one before it would be above the cap. So it is of the files on the disk when no step of a
run fails. -/
theorem tree_packs_greedily (job : Job) (output : TreeOutput)
    (selects : job.families.isEmpty = false) (tree : job.output = .tree output) :
    ∃ (plan : Plan) (headers : List Header),
      job.plan = .ok plan ∧
      Plan.writes plan.actions =
        headers.map (fun h => (h.path output, h.text job.guardStyle)) ∧
      (∀ earlier h later, headers = earlier ++ h :: later →
        h = .after output.groupLength earlier h.family h.span h.lines ∧
        h.lines.map Prod.fst = h.span.sizes) ∧
      (∀ h ∈ headers, output.sizeCap < h.size job.guardStyle → h.lines.length = 1) ∧
      (∀ earlier h later, headers = earlier ++ h :: later →
        (∃ g ∈ later, g.family = h.family) → h.size job.guardStyle ≤ output.sizeCap →
        ∃ next others line rest, later = next :: others ∧ next.family = h.family ∧
          next.lines = (h.span.last + 1, line) :: rest ∧
          output.sizeCap <
            (Header.after output.groupLength earlier h.family ⟨h.span.first, h.span.last + 1⟩
              (h.lines ++ [(h.span.last + 1, line)])).size job.guardStyle) ∧
      ∀ disk : Disk, (∀ fault, (plan.run disk).result ≠ .failed fault) →
        ∀ h ∈ headers, ∃ place,
          (plan.run disk).disk.placeOf? (h.path output) = some place ∧
          (plan.run disk).disk.file? place = some (h.text job.guardStyle) := by
  obtain ⟨checks, enums, middle, past, built⟩ :=
    Tree.exists_built output job.guardStyle job.selected job.range job.style
  have packed {earlier later : List Header} {h : Header}
      (place : Tree.headers (Tree.grown output job.guardStyle job.selected job.range
        (.start job.style)).steps = earlier ++ h :: later) := Tree.exists_packed place
  have planned := plan_tree selects tree
  rw [Tree.plan] at planned
  generalize Tree.grown output job.guardStyle job.selected job.range (.start job.style) = grown
    at built planned packed
  have places : ((Tree.headers grown.steps).map (·.placeInTree output)).Nodup := built.nodup_places
  refine ⟨_, Tree.headers grown.steps, planned, Tree.writes_actions [] grown.steps,
    fun earlier h later place => ?_, fun h member large => ?_,
    fun earlier h later place follows within => ?_, fun disk fine => ?_⟩
  · obtain ⟨bounded, own, -⟩ := packed place
    exact ⟨own.placed, (built.follows place).sizes⟩
  · obtain ⟨earlier, later, place⟩ := List.append_of_mem member
    obtain ⟨bounded, own, -⟩ := packed place
    exact (own.alone large).1
  · obtain ⟨bounded, own, -⟩ := packed place
    obtain ⟨g, member, same⟩ := follows
    cases later with
    | nil => exact absurd member List.not_mem_nil
    | cons next others =>
      have ordered := built.ordered
      rw [place] at ordered
      have family := Header.family_eq_of_ordered (List.pairwise_append.1 ordered).2.1 member same
      obtain ⟨line, rest, lines, above⟩ := own.full within next rfl family
      exact ⟨next, others, line, rest, rfl, family, lines, above⟩
  · obtain ⟨-, keeps⟩ := Plan.keeps_performAll _ _ fine
    rw [Tree.writes_actions] at keeps
    exact keeps.exists_place places

/-- Two checks fill the first header, which a third would make larger than 150 bytes; the last check
is larger by itself. -/
theorem tree_packs_greedily_up_to_five :
    ∃ (plan : Plan) (headers : List Header),
      Job.plan ⟨⟨2, some 5⟩, ⟨true, false⟩, .added, .classic, .standard,
        .tree ⟨"out", 150, 2⟩, none⟩ = .ok plan ∧
      (plan.run Disk.blank).result =
        .finished
          ⟨some ⟨2, 5⟩, none,
            ["out/areuniq/areuniq2-3.h", "out/areuniq/areuniq4.h", "out/areuniq/areuniq5.h"]⟩ ∧
      (∀ h ∈ headers, 150 < h.size .classic → h.lines.length = 1) ∧
      (∀ earlier h later, headers = earlier ++ h :: later →
        (∃ g ∈ later, g.family = h.family) → h.size .classic ≤ 150 →
        ∃ next others line rest, later = next :: others ∧ next.family = h.family ∧
          next.lines = (h.span.last + 1, line) :: rest ∧
          150 < (Header.after 2 earlier h.family ⟨h.span.first, h.span.last + 1⟩
            (h.lines ++ [(h.span.last + 1, line)])).size .classic) ∧
      ∀ h ∈ headers, ∃ place,
        (plan.run Disk.blank).disk.placeOf? (h.path ⟨"out", 150, 2⟩) = some place ∧
        (plan.run Disk.blank).disk.file? place = some (h.text .classic) := by
  obtain ⟨plan, headers, planned, -, -, alone, full, runs⟩ :=
    tree_packs_greedily
      ⟨⟨2, some 5⟩, ⟨true, false⟩, .added, .classic, .standard, .tree ⟨"out", 150, 2⟩, none⟩
      ⟨"out", 150, 2⟩ rfl rfl
  have ran : (Job.plan ⟨⟨2, some 5⟩, ⟨true, false⟩, .added, .classic, .standard,
      .tree ⟨"out", 150, 2⟩, none⟩).toOption.map (fun plan => (plan.run Disk.blank).result) =
        some (.finished
          ⟨some ⟨2, 5⟩, none, ["out/areuniq/areuniq2-3.h", "out/areuniq/areuniq4.h",
            "out/areuniq/areuniq5.h"]⟩) := by decide +kernel
  rw [planned] at ran
  have finished := Option.some.inj ran
  have there := runs .blank fun fault failed => nomatch finished.symm.trans failed
  exact ⟨plan, headers, planned, finished, alone, full, there⟩

end Job

end EnumMacros
