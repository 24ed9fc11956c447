import EnumMacros.Header.Tree
import EnumMacros.Proofs.Definition.Composing
import EnumMacros.Proofs.Size.Meeting

/-! How a tree comes about. Each header holds the sizes after those of the header before it, is
numbered by how many headers there are, and includes by what they hold. A header takes on at least
one size in a bounded range, so that such a range is covered to its end. -/

namespace EnumMacros

open Composer (Reached)

theorem two_lt_sizeLimit : 2 < sizeLimit := by decide

theorem Family.least_le_two (family : Family) : family.least ≤ 2 := by cases family <;> decide

theorem Family.max_least_lt (family : Family) {first : Nat} (small : first < sizeLimit) :
    max first family.least < sizeLimit :=
  Nat.max_lt.2 ⟨small, Nat.lt_of_le_of_lt family.least_le_two two_lt_sizeLimit⟩

theorem Composer.Reached.defineLine {style : Style} {c after : Composer} {family : Family} {n : Nat}
    {line : Option Line} (h : Reached style c) (same : c.defineLine family n = (line, after)) :
    Reached style after := by
  have later : Reached style (c.define family n).2 := .step family n h
  rw [Composer.defineLine] at same
  rwa [← (Prod.mk.inj same).2]

namespace Printed

/-- The lines are those of sizes that a range reaches, in order from the first on, each as some
composer writes it. -/
structure IsRun (style : Style) (family : Family) (range : Request) (first : Nat) (p : Printed) :
    Prop where
  sizes : p.lines.map Prod.fst = List.range' first p.lines.length
  printed : ∀ entry ∈ p.lines, style.Prints family entry.1 entry.2
  within : ∀ entry ∈ p.lines, range.reaches entry.1 = true
  composer : Reached style p.composer

variable {style : Style} {family : Family} {range : Request} {c : Composer} {first : Nat}

theorem isRun_nil (reached : Reached style c) (events : List Event) :
    IsRun style family range first ⟨[], events, c⟩ :=
  ⟨rfl, fun _ member => absurd member List.not_mem_nil,
    fun _ member => absurd member List.not_mem_nil, reached⟩

theorem IsRun.cons {line : Line} {p : Printed} (h : p.IsRun style family range (first + 1))
    (printed : style.Prints family first line) (reaches : range.reaches first = true)
    (events : List Event) :
    IsRun style family range first ⟨(first, line) :: p.lines, events, p.composer⟩ := by
  refine ⟨?_, List.forall_mem_cons.2 ⟨printed, h.printed⟩,
    List.forall_mem_cons.2 ⟨reaches, h.within⟩, h.composer⟩
  show first :: p.lines.map Prod.fst = List.range' first (p.lines.length + 1)
  rw [h.sizes, List.range'_succ]

end Printed

namespace Tree

variable {style : Style} {output : TreeOutput} {guardStyle : GuardStyle} {family : Family}
  {range : Request}

/-! ### The lines of a header -/

theorem isRun_fillFrom (frame : Span → Nat) (cap : Nat) {c : Composer} (reached : Reached style c)
    (first n bytes : Nat) :
    (fillFrom frame cap family range c first n bytes).IsRun style family range n := by
  fun_induction fillFrom frame cap family range c first n bytes with
  | case1 c n bytes reaches after same => exact Printed.isRun_nil (reached.defineLine same) _
  | case2 c n bytes reaches line after same full =>
    exact Printed.isRun_nil (reached.defineLine same) _
  | case3 c n bytes reaches line after same fits more rest ih =>
    exact (ih (reached.defineLine same)).cons ⟨c, reached, by rw [same]⟩ reaches _
  | case4 c n bytes reaches line after same fits more =>
    have last : Printed.IsRun style family range (n + 1) ⟨[], [], after⟩ :=
      Printed.isRun_nil (reached.defineLine same) _
    exact last.cons ⟨c, reached, by rw [same]⟩ reaches _
  | case5 c n bytes past => exact Printed.isRun_nil reached _

theorem isRun_nextLines {s : State} (reached : Reached style s.composer) {first : Nat}
    (reaches : range.reaches first = true) :
    (nextLines output guardStyle s family range first).IsRun style family range first := by
  have filled : (fill output guardStyle s family range first).IsRun style family range first :=
    isRun_fillFrom _ _ reached first first 0
  rw [nextLines]
  split
  · exact filled
  · split_ifs with bounded
    · split
      next line after same =>
      cases line with
      | none => exact Printed.isRun_nil (filled.composer.defineLine same) _
      | some line =>
        have last : Printed.IsRun style family range (first + 1) ⟨[], [], after⟩ :=
          Printed.isRun_nil (filled.composer.defineLine same) _
        exact last.cons ⟨_, filled.composer, by rw [same]⟩ reaches _
    · exact ⟨filled.sizes, filled.printed, filled.within, filled.composer⟩

/-- In a bounded range every header has a line, if need be one above the cap. -/
theorem nextLines_ne_nil {s : State} (reached : Reached style s.composer) {first : Nat}
    (bounded : range.hasEnd = true) (least : family.least ≤ first) (small : first < sizeLimit) :
    (nextLines output guardStyle s family range first).lines ≠ [] := by
  have filled : (fill output guardStyle s family range first).IsRun style family range first :=
    isRun_fillFrom _ _ reached first first 0
  obtain ⟨line, found⟩ := Style.exists_prints filled.composer least small
  rw [nextLines]
  split
  · next same =>
    rw [same]
    exact List.cons_ne_nil _ _
  · rw [if_pos bounded]
    split
    next other after same =>
    rw [same] at found
    obtain rfl : other = some line := found
    exact List.cons_ne_nil _ _

/-! ### One header after the other -/

/-- The index of the checks among some headers. -/
def indexOf (headers : List Header) : HeaderIndex :=
  ⟨((headers.filter (·.family = .distinct)).map (·.span)).toArray⟩

theorem indexOf_snoc_distinct {headers : List Header} {header : Header}
    (same : header.family = .distinct) :
    indexOf (headers ++ [header]) = (indexOf headers).push header.span := by
  simp [indexOf, HeaderIndex.push, same]

theorem indexOf_snoc_enum {headers : List Header} {header : Header}
    (same : header.family = .enum) : indexOf (headers ++ [header]) = indexOf headers := by
  simp [indexOf, same]

end Tree

/-- A header as it is added to a tree that has some headers already. -/
structure Header.Follows (style : Style) (groupLength : Nat) (before : List Header) (h : Header) :
    Prop where
  forward : h.span.first ≤ h.span.last
  bounded : h.span.last + 1 < sizeLimit
  number : h.number = before.length
  included : h.included =
    Tree.includePaths (Tree.indexOf before) groupLength h.family h.span
  sizes : h.lines.map Prod.fst = h.span.sizes
  printed : ∀ entry ∈ h.lines, style.Prints h.family entry.1 entry.2

/-- Headers of the same family hold larger sizes later, and the checks come before the enum
macros. -/
def Header.Precedes (g h : Header) : Prop :=
  g.family = h.family ∧ g.span.last < h.span.first ∨ g.family = .distinct ∧ h.family = .enum

namespace Tree

variable {style : Style} {output : TreeOutput} {guardStyle : GuardStyle} {family : Family}
  {range : Request}

/-- The headers that a family adds to a tree, from one size on up to before another. -/
inductive Grows (style : Style) (groupLength : Nat) (family : Family) :
    List Header → Nat → List Header → Nat → Prop
  | stop (before : List Header) (first : Nat) : Grows style groupLength family before first [] first
  | next {before : List Header} {header : Header} {added : List Header} {past : Nat} :
      header.family = family → header.Follows style groupLength before →
      Grows style groupLength family (before ++ [header]) (header.span.last + 1) added past →
      Grows style groupLength family before header.span.first (header :: added) past

/-- What a state knows of the headers so far. -/
structure State.Records (style : Style) (headers : List Header) (s : State) : Prop where
  composer : Reached style s.composer
  index : s.index = indexOf headers
  count : s.count = headers.length

theorem State.Records.add {before : List Header} {s : State} (h : s.Records style before)
    {header : Header} {after : Composer} (reached : Reached style after) :
    (s.add header.family header.span after).Records style (before ++ [header]) := by
  refine ⟨reached, ?_, ?_⟩
  · cases same : header.family with
    | distinct =>
      rw [indexOf_snoc_distinct same, ← h.index]
      rfl
    | enum =>
      rw [indexOf_snoc_enum same, ← h.index]
      rfl
  · rw [List.length_append, ← h.count]
    rfl

/-- The header that comes next follows those before it. -/
theorem State.Records.follows {before : List Header} {s : State} (h : s.Records style before)
    {first : Nat} {p : Printed} (run : p.IsRun style family range first) (nonempty : p.lines ≠ [])
    (small : first + p.lines.length < sizeLimit) :
    (s.header output family ⟨first, first + p.lines.length - 1⟩ p.lines).Follows style
      output.groupLength before := by
  have longer := List.length_pos_iff.2 nonempty
  refine ⟨?_, ?_, h.count, ?_, ?_, run.printed⟩
  · show first ≤ first + p.lines.length - 1
    omega
  · show first + p.lines.length - 1 + 1 < sizeLimit
    omega
  · show includePaths s.index output.groupLength family _ = _
    rw [h.index]
    rfl
  · show p.lines.map Prod.fst = List.range' first (first + p.lines.length - 1 + 1 - first)
    rw [run.sizes]
    congr 1
    omega

/-- The sizes of a run end where the range does. -/
theorem past_le_of_isRun {first : Nat} {p : Printed} (run : p.IsRun style family range first)
    {last : Nat} (bound : range.last = some last) (nonempty : p.lines ≠ []) :
    first + p.lines.length ≤ last + 1 := by
  have longer := List.length_pos_iff.2 nonempty
  have final : first + p.lines.length - 1 ∈ p.lines.map Prod.fst := by
    rw [run.sizes, List.mem_range'_1]
    omega
  obtain ⟨entry, member, same⟩ := List.mem_map.1 final
  have reaches := run.within entry member
  rw [Request.reaches, bound, same] at reaches
  simp only [Option.all_some, decide_eq_true_eq] at reaches
  omega

@[simp] theorem headers_append (steps rest : List Step) :
    headers (steps ++ rest) = headers steps ++ headers rest := by
  rw [headers, headers, headers, List.filterMap_append]

@[simp] theorem headers_reports (events : List Event) : headers (reports events) = [] := by
  simp [headers, reports, List.filterMap_map]

@[simp] theorem headers_write (header : Header) (steps : List Step) :
    headers (.write header :: steps) = header :: headers steps := rfl

theorem headers_reports_write (events : List Event) (header : Header) (steps : List Step) :
    headers (reports events ++ .write header :: steps) = header :: headers steps := by
  rw [headers_append, headers_reports, headers_write, List.nil_append]

/-- What the growth of a tree by one family comes to. -/
structure Growth.Covers (style : Style) (groupLength : Nat) (family : Family) (range : Request)
    (before : List Header) (first past : Nat) (growth : Growth) : Prop where
  grows : Grows style groupLength family before first (headers growth.steps) past
  records : growth.state.Records style (before ++ headers growth.steps)
  within : ∀ last, range.last = some last → past ≤ max first (last + 1)
  complete : ∀ last, range.last = some last → last + 1 < sizeLimit → first ≤ last + 1 →
    growth.completed = true ∧ past = last + 1

/-- A growth that ends without another header. -/
theorem covers_stop {groupLength first : Nat} {before : List Header} {growth : Growth}
    (none : headers growth.steps = []) (records : growth.state.Records style before)
    (ends : ∀ last, range.last = some last → last + 1 < sizeLimit → first ≤ last + 1 →
      growth.completed = true ∧ first = last + 1) :
    growth.Covers style groupLength family range before first first := by
  refine ⟨?_, ?_, fun last _ => Nat.le_max_left _ _, ends⟩
  · rw [none]
    exact .stop before first
  · rwa [none, List.append_nil]

/-- A growth that goes on with a header. -/
theorem Growth.Covers.write {groupLength past : Nat} {before : List Header} {header : Header}
    {rest : Growth}
    (h : rest.Covers style groupLength family range (before ++ [header]) (header.span.last + 1)
      past)
    (same : header.family = family) (follows : header.Follows style groupLength before)
    (within : ∀ last, range.last = some last → header.span.last ≤ last) (events : List Event) :
    ({ rest with steps := reports events ++ .write header :: rest.steps } : Growth).Covers style
      groupLength family range before header.span.first past := by
  have joined : headers (reports events ++ .write header :: rest.steps) =
      header :: headers rest.steps :=
    headers_reports_write _ _ _
  refine ⟨?_, ?_, fun last bound => ?_, fun last bound fits le => ?_⟩
  · rw [joined]
    exact .next same follows h.grows
  · rw [joined, List.append_cons]
    exact h.records
  · have := h.within last bound
    have := within last bound
    omega
  · exact h.complete last bound fits (Nat.succ_le_succ (within last bound))

/-- A family is written in headers that follow each other, and a bounded range up to its end. -/
theorem exists_covers_growFrom (s : State) (first : Nat) :
    ∀ before, s.Records style before → family.least ≤ first →
      ∃ past, (growFrom output guardStyle family range s first).Covers style output.groupLength
        family range before first past := by
  fun_induction growFrom output guardStyle family range s first with
  | case1 s first reaches next empty =>
    intro before h least
    have run : next.IsRun style family range first := isRun_nextLines h.composer reaches
    refine ⟨first, covers_stop (headers_reports _) ⟨run.composer, h.index, h.count⟩
      fun last bound small _ => ?_⟩
    have below : first ≤ last := by simpa [Request.reaches, bound] using reaches
    have written : next.lines ≠ [] :=
      nextLines_ne_nil h.composer (by simp [Request.hasEnd, bound]) least (by omega)
    exact absurd (List.isEmpty_iff.1 empty) written
  | case2 s first reaches next nonempty final found span rest ih =>
    intro before h least
    have run : next.IsRun style family range first := isRun_nextLines h.composer reaches
    have written : next.lines ≠ [] := by simpa using nonempty
    have longer := List.length_pos_iff.2 written
    obtain ⟨small, rfl⟩ := headerEnd?_eq_some_iff.1 found
    let header := s.header output family span next.lines
    have follows : header.Follows style output.groupLength before := h.follows run written small
    have records : (s.add family span next.composer).Records style (before ++ [header]) :=
      h.add run.composer
    obtain ⟨stop, covers⟩ := ih _ records (by omega)
    refine ⟨stop, covers.write rfl follows (fun last bound => ?_) next.events⟩
    have := past_le_of_isRun run bound written
    show first + next.lines.length - 1 ≤ last
    omega
  | case3 s first reaches next nonempty exhausted =>
    intro before h least
    have run : next.IsRun style family range first := isRun_nextLines h.composer reaches
    have written : next.lines ≠ [] := by simpa using nonempty
    refine ⟨first, covers_stop (headers_reports _) ⟨run.composer, h.index, h.count⟩
      fun last bound fits le => ?_⟩
    have := past_le_of_isRun run bound written
    have := headerEnd?_eq_none_iff.1 exhausted
    omega
  | case4 s first stopped =>
    intro before h least
    refine ⟨first, covers_stop rfl h fun last bound fits le => ⟨rfl, ?_⟩⟩
    have : ¬first ≤ last := by simpa [Request.reaches, bound] using stopped
    omega

/-! ### The headers of a family -/

section Grows

variable {groupLength first past : Nat} {before added : List Header}

theorem Grows.le (h : Grows style groupLength family before first added past) : first ≤ past := by
  induction h with
  | stop => exact Nat.le_refl _
  | next _ follows _ ih =>
    have := follows.forward
    omega

/-- The sizes of the headers are those from the first on up to before the last, in order. -/
theorem Grows.sizes (h : Grows style groupLength family before first added past) :
    added.flatMap (·.span.sizes) = List.range' first (past - first) := by
  induction h with
  | stop before first => rw [Nat.sub_self]; rfl
  | @next before header added past _ follows rest ih =>
    have forward := follows.forward
    have le := rest.le
    have apart : past - header.span.first =
        header.span.last + 1 - header.span.first + (past - (header.span.last + 1)) := by omega
    have meet : header.span.first + (header.span.last + 1 - header.span.first) =
        header.span.last + 1 := by omega
    rw [List.flatMap_cons, ih, Span.sizes, apart, ← List.range'_append_1, meet]

theorem Grows.family_eq (h : Grows style groupLength family before first added past) :
    ∀ header ∈ added, header.family = family := by
  induction h with
  | stop => exact fun _ member => absurd member List.not_mem_nil
  | next same _ _ ih => exact List.forall_mem_cons.2 ⟨same, ih⟩

theorem Grows.follows (h : Grows style groupLength family before first added past)
    {earlier later : List Header} {header : Header} (place : added = earlier ++ header :: later) :
    header.Follows style groupLength (before ++ earlier) := by
  induction h generalizing earlier with
  | stop => exact absurd place (by simp)
  | @next before header' added past _ follows _ ih =>
    cases earlier with
    | nil =>
      obtain ⟨rfl, -⟩ := List.cons.inj place
      rwa [List.append_nil]
    | cons other earlier =>
      obtain ⟨rfl, rest⟩ := List.cons.inj place
      have later := ih rest
      rwa [List.append_assoc] at later

/-- The headers are numbered by how many there are. -/
theorem Grows.numbers (h : Grows style groupLength family before first added past) :
    added.map (·.number) = List.range' before.length added.length := by
  induction h with
  | stop => rfl
  | @next before header added past _ follows _ ih =>
    rw [List.map_cons, ih, follows.number, List.length_append, List.length_singleton,
      List.length_cons, List.range'_succ]

/-- A size between the bounds is in one of the headers. -/
theorem Grows.exists_header (h : Grows style groupLength family before first added past) {n : Nat}
    (from_first : first ≤ n) (before_past : n < past) :
    ∃ header ∈ added, n ∈ header.span.sizes := by
  have member : n ∈ List.range' first (past - first) := List.mem_range'_1.2 (by omega)
  rw [← h.sizes] at member
  exact List.mem_flatMap.1 member

theorem Grows.bounds (h : Grows style groupLength family before first added past) {header : Header}
    (member : header ∈ added) : first ≤ header.span.first ∧ header.span.last < past := by
  obtain ⟨earlier, later, place⟩ := List.append_of_mem member
  have forward := (h.follows place).forward
  have inside {n : Nat} (own : n ∈ header.span.sizes) : n ∈ List.range' first (past - first) := by
    rw [← h.sizes]
    exact List.mem_flatMap.2 ⟨header, member, own⟩
  have least := List.mem_range'_1.1 (inside (Span.mem_sizes.2 ⟨Nat.le_refl _, forward⟩))
  have greatest := List.mem_range'_1.1 (inside (Span.mem_sizes.2 ⟨forward, Nat.le_refl _⟩))
  omega

theorem Grows.follow (h : Grows style groupLength family before first added past) :
    Span.Follow (added.map (·.span)) := by
  induction h with
  | stop => exact ⟨by simp, by simp⟩
  | @next before header added past _ follows rest ih =>
    refine ⟨List.forall_mem_cons.2 ⟨follows.forward, ih.nonempty⟩,
      List.pairwise_cons.2 ⟨fun span member => ?_, ih.ordered⟩⟩
    obtain ⟨other, inside, rfl⟩ := List.mem_map.1 member
    exact (rest.bounds inside).1

theorem Grows.past_eq (h : Grows style groupLength family before first added past)
    (empty : added = []) : past = first := by
  cases h with
  | stop => rfl
  | next => exact absurd empty (List.cons_ne_nil _ _)

theorem Grows.getLast? (h : Grows style groupLength family before first added past)
    (nonempty : added ≠ []) :
    ∃ header, added.getLast? = some header ∧ header.span.last + 1 = past := by
  induction h with
  | stop => exact absurd rfl nonempty
  | @next before header added past _ _ rest ih =>
    by_cases last : added = []
    · refine ⟨header, ?_, (rest.past_eq last).symm⟩
      rw [last]
      rfl
    · obtain ⟨final, found, ends⟩ := ih last
      refine ⟨final, ?_, ends⟩
      rw [List.getLast?_cons, found]
      rfl

theorem Grows.written? {steps : List Step}
    (h : Grows style groupLength family before first (headers steps) past) (positive : 0 < first) :
    written? steps = Span.of? first (past - 1) := by
  rw [Tree.written?]
  generalize headers steps = added at h
  cases h with
  | stop => rw [Span.of?, if_neg (by omega)]; rfl
  | @next _ header added past same follows rest =>
    obtain ⟨final, found, ends⟩ :=
      (Grows.next same follows rest).getLast? (List.cons_ne_nil _ _)
    have forward := follows.forward
    have le := rest.le
    rw [found, List.head?_cons, Span.of?, if_pos (by omega), ← ends]
    rfl

end Grows

/-! ### Both families -/

/-- The part of a request that a family has starts with the first of its sizes. -/
theorem from?_eq_some {least : Nat} {part : Request} (h : range.from? least = some part) :
    part.first = max range.first least ∧ part.last = range.last ∧
      ∀ last, range.last = some last → max range.first least ≤ last := by
  rw [Request.from?] at h
  split_ifs at h with reaches
  obtain rfl := Option.some.inj h
  refine ⟨rfl, rfl, fun last bound => ?_⟩
  simpa only [Request.reaches, bound, Option.all_some, decide_eq_true_eq] using reaches

theorem from?_eq_none {least : Nat} (h : range.from? least = none) :
    ∃ last, range.last = some last ∧ last < max range.first least := by
  rw [Request.from?] at h
  split_ifs at h with stopped
  cases bound : range.last with
  | none => simp [Request.reaches, bound] at stopped
  | some last =>
    refine ⟨last, rfl, ?_⟩
    simpa only [Request.reaches, bound, Option.all_some, decide_eq_true_eq, Nat.not_le]
      using stopped

theorem headers_grow (output : TreeOutput) (guardStyle : GuardStyle) (family : Family)
    (part : Request) (s : State) :
    headers (grow output guardStyle family part s).steps =
      headers (growFrom output guardStyle family part s part.first).steps := by
  rw [grow, headers_append, headers_reports, List.append_nil]

theorem exists_covers_grow (output : TreeOutput) (guardStyle : GuardStyle) {before : List Header}
    {s : State} (h : s.Records style before) {part : Request}
    (starts : range.from? family.least = some part) :
    ∃ past, (grow output guardStyle family part s).Covers style output.groupLength family range
      before (max range.first family.least) past := by
  obtain ⟨first, last, -⟩ := from?_eq_some starts
  have least : family.least ≤ part.first := by
    rw [first]
    exact Nat.le_max_right _ _
  obtain ⟨past, covers⟩ : ∃ past,
      (growFrom output guardStyle family part s part.first).Covers style output.groupLength
        family part before part.first past :=
    exists_covers_growFrom s part.first before h least
  have same := headers_grow output guardStyle family part s
  rw [← first]
  refine ⟨past, ⟨?_, ?_, fun final bound => covers.within final (last.trans bound),
    fun final bound => covers.complete final (last.trans bound)⟩⟩
  · rw [same]
    exact covers.grows
  · rw [same]
    exact covers.records

/-- What one family adds to a tree when it is asked for a range of sizes. -/
structure Adds (style : Style) (groupLength : Nat) (family : Family) (selected : Bool)
    (range : Request) (before added : List Header) (past : Nat) : Prop where
  grows : Grows style groupLength family before (max range.first family.least) added past
  unselected : selected = false → added = []
  within : ∀ last, range.last = some last → past ≤ max (max range.first family.least) (last + 1)
  complete : ∀ last, range.last = some last → last + 1 < sizeLimit → selected = true →
    past = max (max range.first family.least) (last + 1)

theorem adds_nil {groupLength : Nat} {selected : Bool} (before : List Header)
    (empty : (if selected then range.from? family.least else none) = none) :
    Adds style groupLength family selected range before [] (max range.first family.least) := by
  refine ⟨.stop before _, fun _ => rfl, fun last _ => Nat.le_max_left _ _,
    fun last bound _ chosen => ?_⟩
  rw [if_pos chosen] at empty
  obtain ⟨last', bound', below⟩ := from?_eq_none empty
  obtain rfl : last = last' := Option.some.inj (bound.symm.trans bound')
  omega

theorem Growth.Covers.adds {groupLength past : Nat} {before : List Header} {growth : Growth}
    {selected : Bool} {part : Request}
    (starts : (if selected then range.from? family.least else none) = some part)
    (h : growth.Covers style groupLength family range before (max range.first family.least) past) :
    Adds style groupLength family selected range before (headers growth.steps) past ∧
      ∀ last, range.last = some last → last + 1 < sizeLimit → growth.completed = true := by
  obtain ⟨chosen, starts⟩ := Option.ite_none_right_eq_some.1 starts
  obtain ⟨-, -, below⟩ := from?_eq_some starts
  have complete (last : Nat) (bound : range.last = some last) (small : last + 1 < sizeLimit) :=
    h.complete last bound small (Nat.le_succ_of_le (below last bound))
  refine ⟨⟨h.grows, fun other => ?_, h.within, fun last bound small _ => ?_⟩,
    fun last bound small => (complete last bound small).1⟩
  · exact absurd (chosen.symm.trans other) (by simp)
  · have := below last bound
    have := (complete last bound small).2
    omega

/-- A tree: the headers with the checks, then those with the enum macros, which go no further than
the checks that they call. -/
structure Grown.Built (style : Style) (groupLength : Nat) (selection : Selection) (range : Request)
    (checks enums : List Header) (middle past : Nat) (tree : Grown) : Prop where
  joined : headers tree.steps = checks ++ enums
  add_checks : Adds style groupLength .distinct selection.distinct range [] checks middle
  add_enums : Adds style groupLength .enum selection.enum range checks enums past
  distinct : tree.distinct = Span.of? (max range.first Family.distinct.least) (middle - 1)
  enum : tree.enum = Span.of? (max range.first Family.enum.least) (past - 1)
  called : selection.distinct = true → past ≤ middle
  completed : ∀ last, range.last = some last → last + 1 < sizeLimit → tree.completed = true

theorem least_pos (range : Request) (family : Family) : 0 < max range.first family.least := by
  have : 0 < family.least := by cases family <;> decide
  omega

/-- Once there are checks the enum macros are asked for up to where those end. -/
theorem enumRange_some {groupLength past : Nat} {growth : Growth} {before : List Header}
    (h : Grows style groupLength .distinct before (max range.first Family.distinct.least)
      (headers growth.steps) past) :
    enumRange range (some growth) = ⟨range.first, some (past - 1)⟩ := by
  have ends := h.written? (least_pos range .distinct)
  have le := h.le
  rw [enumRange, ends, Span.of?]
  split_ifs with several
  · rfl
  · rw [show past - 1 = max range.first Family.distinct.least - 1 by omega]

theorem growDistinct_eq (selection : Selection) (s : State) :
    growDistinct output guardStyle selection range s =
      (if selection.distinct then range.from? Family.distinct.least else none).map
        (grow output guardStyle .distinct · s) := by
  rw [growDistinct]
  split_ifs <;> rfl

theorem of?_pred {n : Nat} (positive : 0 < n) : Span.of? n (n - 1) = none :=
  if_neg (by omega)

/-- Without checks the enum macros stop below the first size that has one. -/
theorem Adds.past_le {groupLength past : Nat} {selected : Bool} {before added : List Header}
    (h : Adds style groupLength .enum selected range before added past)
    (empty : range.from? Family.distinct.least = none) :
    past ≤ max range.first Family.distinct.least := by
  obtain ⟨last, bound, below⟩ := from?_eq_none empty
  have within := h.within last bound
  have : Family.enum.least ≤ Family.distinct.least := by decide
  omega

/-- Enum macros asked for up to the end of the checks stop there, and in a bounded range they reach
its end just as the checks do. -/
theorem Adds.of_checks {groupLength middle past : Nat} {selected : Bool}
    {checks added : List Header} {part : Request}
    (starts : range.from? Family.distinct.least = some part)
    (done : Adds style groupLength .distinct true range [] checks middle)
    (h : Adds style groupLength .enum selected ⟨range.first, some (middle - 1)⟩ checks added past) :
    Adds style groupLength .enum selected range checks added past ∧ past ≤ middle := by
  obtain ⟨-, -, below⟩ := from?_eq_some starts
  have order : Family.enum.least ≤ Family.distinct.least := by decide
  have positive := least_pos range .distinct
  have le := done.grows.le
  have ends : past ≤ max (max range.first Family.enum.least) (middle - 1 + 1) := h.within _ rfl
  refine ⟨⟨h.grows, h.unselected, fun last bound => ?_, fun last bound small chosen => ?_⟩, ?_⟩
  · have := done.within last bound
    have := below last bound
    omega
  · have := done.complete last bound small rfl
    have := below last bound
    have whole : past = max (max range.first Family.enum.least) (middle - 1 + 1) :=
      h.complete (middle - 1) rfl (by omega) chosen
    omega
  · omega

theorem exists_withEnums (output : TreeOutput) (guardStyle : GuardStyle) (selection : Selection)
    (asked : Request) {steps : List Step} {s : State} (h : s.Records style (headers steps)) :
    ∃ enums past,
      Adds style output.groupLength .enum selection.enum asked (headers steps) enums past ∧
      (withEnums output guardStyle selection asked steps s).distinct = written? steps ∧
      headers (withEnums output guardStyle selection asked steps s).steps = headers steps ++ enums ∧
      (withEnums output guardStyle selection asked steps s).enum =
        Span.of? (max asked.first Family.enum.least) (past - 1) ∧
      ∀ last, asked.last = some last → last + 1 < sizeLimit →
        (withEnums output guardStyle selection asked steps s).completed = true := by
  rw [withEnums]
  cases starts : (if selection.enum then asked.from? Family.enum.least else none) with
  | none =>
    exact ⟨[], _, adds_nil _ starts, rfl, (List.append_nil _).symm,
      (of?_pred (least_pos asked .enum)).symm, fun _ _ _ => rfl⟩
  | some part =>
    obtain ⟨past, covers⟩ := exists_covers_grow output guardStyle h
      (Option.ite_none_right_eq_some.1 starts).2
    obtain ⟨enums, completed⟩ := covers.adds starts
    exact ⟨_, past, enums, rfl, headers_append _ _, enums.grows.written? (least_pos asked .enum),
      completed⟩

theorem exists_built (output : TreeOutput) (guardStyle : GuardStyle) (selection : Selection)
    (range : Request) (style : Style) :
    ∃ checks enums middle past,
      (grown output guardStyle selection range (.start style)).Built style output.groupLength
        selection range checks enums middle past := by
  have fresh : State.Records style [] ⟨.start style, .empty, 0⟩ := ⟨.start, rfl, rfl⟩
  rw [grown, growDistinct_eq]
  cases starts : (if selection.distinct then range.from? Family.distinct.least else none) with
  | none =>
    have checks : Adds style output.groupLength .distinct selection.distinct range [] [] _ :=
      adds_nil [] starts
    obtain ⟨enums, past, adds, distinct, joined, enum, completed⟩ :=
      exists_withEnums output guardStyle selection range
        (show State.Records style (headers []) _ from fresh)
    refine ⟨[], enums, _, past, joined, checks, adds, ?_, enum, fun chosen => ?_, completed⟩
    · exact distinct.trans (of?_pred (least_pos range .distinct)).symm
    · rw [if_pos chosen] at starts
      exact adds.past_le starts
  | some part =>
    obtain ⟨chosen, starts'⟩ := Option.ite_none_right_eq_some.1 starts
    obtain ⟨middle, covers⟩ := exists_covers_grow output guardStyle fresh starts'
    obtain ⟨checks, finished⟩ := covers.adds starts
    obtain ⟨-, -, below⟩ := from?_eq_some starts'
    have ends := checks.grows.written? (least_pos range .distinct)
    have asked := enumRange_some checks.grows
    have records := covers.records
    simp only [Option.map_some, Option.getD_some, asked]
    generalize grow output guardStyle .distinct part _ = growth at *
    by_cases done : growth.completed = true
    · rw [if_pos done]
      obtain ⟨enums, past, adds, distinct, joined, enum, completed⟩ :=
        exists_withEnums output guardStyle selection ⟨range.first, some (middle - 1)⟩ records
      rw [chosen] at checks
      obtain ⟨adds, le⟩ := checks.of_checks starts' adds
      rw [← chosen] at checks
      refine ⟨_, enums, middle, past, joined, checks, adds, distinct.trans ends, enum,
        fun _ => le, fun last bound small => completed (middle - 1) rfl ?_⟩
      have := checks.within last bound
      have := below last bound
      have := checks.grows.le
      have := least_pos range .distinct
      omega
    · rw [if_neg done]
      have bounded (last : Nat) (bound : range.last = some last) (small : last + 1 < sizeLimit) :
          False := done (finished last bound small)
      have starts_first : max range.first Family.enum.least ≤ middle := by
        have := checks.grows.le
        have : Family.enum.least ≤ Family.distinct.least := by decide
        omega
      refine ⟨_, [], middle, max range.first Family.enum.least, (List.append_nil _).symm, checks,
        ⟨.stop _ _, fun _ => rfl, fun last _ => Nat.le_max_left _ _, fun last bound small => ?_⟩,
        ends, (of?_pred (least_pos range .enum)).symm, fun _ => starts_first,
        fun last bound small => ?_⟩
      · exact (bounded last bound small).elim
      · exact (bounded last bound small).elim

/-! ### The whole tree -/

section Built

variable {groupLength middle past : Nat} {selection : Selection} {checks enums : List Header}
  {tree : Grown}
  (h : tree.Built style groupLength selection range checks enums middle past)

include h

/-- Every header of a tree follows those before it. -/
theorem Grown.Built.follows {earlier later : List Header} {header : Header}
    (place : headers tree.steps = earlier ++ header :: later) :
    header.Follows style groupLength earlier := by
  rw [h.joined] at place
  rcases List.append_eq_append_iff.1 place with
    ⟨rest, rfl, enums_place⟩ | ⟨rest, place', rest_place⟩
  · exact h.add_enums.grows.follows enums_place
  · cases rest with
    | nil =>
      rw [List.append_nil] at place'
      subst place'
      have first := h.add_enums.grows.follows
        (show enums = [] ++ header :: later from rest_place.symm)
      rwa [List.append_nil] at first
    | cons other rest =>
      obtain ⟨rfl, -⟩ := List.cons.inj rest_place
      have own := h.add_checks.grows.follows place'
      rwa [List.nil_append] at own

theorem Grown.Built.exists_follows {header : Header}
    (member : header ∈ headers tree.steps) :
    ∃ before, header.Follows style groupLength before := by
  obtain ⟨earlier, later, place⟩ := List.append_of_mem member
  exact ⟨earlier, h.follows place⟩

theorem Grown.Built.numbers :
    (headers tree.steps).map (·.number) = List.range' 0 (headers tree.steps).length := by
  rw [h.joined, List.map_append, h.add_checks.grows.numbers, h.add_enums.grows.numbers,
    List.length_append, List.length_nil, ← List.range'_append_1, Nat.zero_add]

/-- Every header of a tree precedes those after it. -/
theorem Grown.Built.ordered : (headers tree.steps).Pairwise Header.Precedes := by
  have within {family : Family} {before added : List Header} {first past : Nat}
      (grows : Grows style groupLength family before first added past) :
      added.Pairwise Header.Precedes := by
    have same := grows.family_eq
    refine List.Pairwise.imp_of_mem ?_ (List.pairwise_map.1 grows.follow.ordered)
    intro g g' left right order
    exact .inl ⟨(same g left).trans (same g' right).symm, order⟩
  rw [h.joined]
  refine List.pairwise_append.2 ⟨within h.add_checks.grows, within h.add_enums.grows, ?_⟩
  intro g left g' right
  exact .inr ⟨h.add_checks.grows.family_eq g left, h.add_enums.grows.family_eq g' right⟩

/-- No two headers of a tree have the family and the first size in common. -/
theorem Grown.Built.apart :
    (headers tree.steps).Pairwise fun g g' =>
      ¬(g.family = g'.family ∧ g.span.first = g'.span.first) := by
  refine List.Pairwise.imp_of_mem ?_ h.ordered
  intro g g' member _ order same
  obtain ⟨before, follows⟩ := h.exists_follows member
  have forward := follows.forward
  rcases order with ⟨-, order⟩ | ⟨check, enum⟩
  · omega
  · rw [check, enum] at same
    exact absurd same.1 (by decide)

end Built

end Tree

end EnumMacros
