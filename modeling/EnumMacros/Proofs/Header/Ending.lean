import EnumMacros.Proofs.Definition.Asking
import EnumMacros.Proofs.Header.Capping
import EnumMacros.Proofs.Header.Fitting

/-! Open ranges end because of the cap. A macro of size `n` takes up `2 * n` bytes at least, so none
is written of more than half the cap, and none is asked for that is larger than the first one above
the cap, unless the range starts there. Enum macros after checks go no further than those. -/

namespace EnumMacros

open Composer (Reached)

/-! ### Bytes -/

theorem le_total_of_mem {n : Nat} {ns : List Nat} (member : n ∈ ns) : n ≤ total ns := by
  obtain ⟨before, after, rfl⟩ := List.append_of_mem member
  rw [total_append, total]
  omega

theorem Printed.size_le_of_mem {lines : List (Nat × Line)} {entry : Nat × Line}
    (member : entry ∈ lines) : entry.2.size ≤ size lines :=
  le_total_of_mem (List.mem_map.2 ⟨entry, member, rfl⟩)

theorem Printed.two_mul_le_size {style : Style} {family : Family} {lines : List (Nat × Line)}
    (printed : ∀ entry ∈ lines, style.Prints family entry.1 entry.2) {n : Nat}
    (member : n ∈ lines.map Prod.fst) (small : n < sizeLimit) : 2 * n ≤ size lines := by
  obtain ⟨entry, inside, rfl⟩ := List.mem_map.1 member
  exact ((printed entry inside).two_mul_le_size small).trans (size_le_of_mem inside)

/-- A header takes up two bytes at least for every parameter of its macros. -/
theorem Header.Follows.two_mul_le_size {style : Style} {groupLength : Nat} {before : List Header}
    {header : Header} (h : header.Follows style groupLength before) (guardStyle : GuardStyle)
    {n : Nat} (member : n ∈ header.span.sizes) : 2 * n ≤ header.size guardStyle := by
  have bounds := Span.mem_sizes.1 member
  have bounded := h.bounded
  rw [← h.sizes] at member
  have lines := Printed.two_mul_le_size h.printed member (by omega)
  rw [Header.size, Header.text]
  simp only [String.utf8ByteSize_append, Printed.utf8ByteSize_text]
  omega

namespace Tree

variable {style : Style} {output : TreeOutput} {guardStyle : GuardStyle} {family : Family}
  {range : Request} {bound : Nat}

/-! ### One header -/

theorem length_fillFrom_le (frame : Span → Nat) (cap : Nat) {c : Composer} {first n bytes : Nat}
    (small : n < sizeLimit) :
    n + (fillFrom frame cap family range c first n bytes).lines.length ≤ sizeLimit := by
  fun_induction fillFrom frame cap family range c first n bytes with
  | case1 | case2 | case5 => exact small.le
  | case3 c n bytes reaches line after same fits more rest ih =>
    have later : n + 1 + rest.lines.length ≤ sizeLimit := ih more
    show n + (rest.lines.length + 1) ≤ sizeLimit
    omega
  | case4 c n bytes reaches line after same fits more => exact small

theorem length_nextLines_le {s : State} {first : Nat} (small : first < sizeLimit) :
    first + (nextLines output guardStyle s family range first).lines.length ≤ sizeLimit := by
  rcases nextLines_cases output guardStyle s family range first with
    ⟨lines, -, -⟩ | ⟨-, -, lines⟩
  · rw [lines]
    exact length_fillFrom_le _ _ small
  · rw [lines]
    cases ((fill output guardStyle s family range first).composer.defineLine family first).1 with
    | none => exact small.le
    | some line => exact small

theorem askedUpTo_fillFrom (frame : Span → Nat) {cap : Nat} {c : Composer}
    (reached : Reached style c) (asked : c.AskedUpTo bound) (wide : cap / 2 + 1 ≤ bound)
    {first n bytes : Nat} (le : n ≤ bound) (small : n < sizeLimit) :
    (fillFrom frame cap family range c first n bytes).composer.AskedUpTo bound := by
  fun_induction fillFrom frame cap family range c first n bytes with
  | case1 c n bytes reaches after same => exact asked.defineLine le same
  | case2 c n bytes reaches line after same full => exact asked.defineLine le same
  | case3 c n bytes reaches line after same fits more rest ih =>
    -- A line that fits is that of a size up to half the cap.
    have prints : style.Prints family n line := ⟨c, reached, by rw [same]⟩
    have taken := prints.two_mul_le_size small
    exact ih (reached.defineLine same) (asked.defineLine le same) (by omega) more
  | case4 c n bytes reaches line after same fits more => exact asked.defineLine le same
  | case5 c n bytes past => exact asked

section NextLines

variable {s : State} {first : Nat}

theorem askedUpTo_nextLines (reached : Reached style s.composer)
    (asked : s.composer.AskedUpTo bound) (wide : output.sizeCap / 2 + 1 ≤ bound)
    (le : first ≤ bound) (small : first < sizeLimit) :
    (nextLines output guardStyle s family range first).composer.AskedUpTo bound := by
  have filled : (fill output guardStyle s family range first).composer.AskedUpTo bound :=
    askedUpTo_fillFrom _ reached asked wide le small
  rw [nextLines]
  split
  · exact filled
  · split_ifs with bounded
    · exact filled.define family le
    · exact filled

/-- Where a range has no end, the sizes of a header are up to half the cap. -/
theorem two_mul_le_cap_of_open (reached : Reached style s.composer)
    (reaches : range.reaches first = true) (small : first < sizeLimit)
    (ends : range.hasEnd = false)
    (nonempty : (nextLines output guardStyle s family range first).lines ≠ []) :
    2 * (first + (nextLines output guardStyle s family range first).lines.length - 1) ≤
      output.sizeCap := by
  have run : (nextLines output guardStyle s family range first).IsRun style family range first :=
    isRun_nextLines reached reaches
  have room : first + (nextLines output guardStyle s family range first).lines.length ≤ sizeLimit :=
    length_nextLines_le small
  have longer := List.length_pos_iff.2 nonempty
  have member : first + (nextLines output guardStyle s family range first).lines.length - 1 ∈
      (nextLines output guardStyle s family range first).lines.map Prod.fst := by
    rw [run.sizes, List.mem_range'_1]
    omega
  have taken := Printed.two_mul_le_size run.printed member (by omega)
  by_contra above
  refine absurd (nextLines_alone reached nonempty ?_).2 (Bool.eq_false_iff.1 ends)
  omega

end NextLines

/-! ### One header after the other -/

/-- The headers of a family ask for no size above a bound, if the range ends within it or has no
end, and the bound is above half the cap. -/
theorem askedUpTo_growFrom (wide : output.sizeCap / 2 + 1 ≤ bound)
    (ends : range.hasEnd = true → ∀ n, range.reaches n = true → n ≤ bound) (s : State)
    (first : Nat) :
    Reached style s.composer → s.composer.AskedUpTo bound → first < sizeLimit →
      (range.reaches first = true → first ≤ bound) →
      (growFrom output guardStyle family range s first).state.composer.AskedUpTo bound := by
  fun_induction growFrom output guardStyle family range s first with
  | case1 s first reaches next empty =>
    intro reached asked small le
    exact askedUpTo_nextLines reached asked wide (le reaches) small
  | case2 s first reaches next nonempty last found span rest ih =>
    intro reached asked small le
    have written : next.lines ≠ [] := by simpa using nonempty
    have run : next.IsRun style family range first := isRun_nextLines reached reaches
    obtain ⟨meets, small'⟩ := next_of_headerEnd? found (List.length_pos_iff.2 written)
    refine ih run.composer (askedUpTo_nextLines reached asked wide (le reaches) small) small'
      fun goes_on => ?_
    cases bounded : range.hasEnd with
    | true => exact ends bounded (last + 1) goes_on
    | false =>
      have half : 2 * (first + next.lines.length - 1) ≤ output.sizeCap :=
        two_mul_le_cap_of_open reached reaches small bounded written
      omega
  | case3 s first reaches next nonempty exhausted =>
    intro reached asked small le
    exact askedUpTo_nextLines reached asked wide (le reaches) small
  | case4 s first stopped =>
    intro reached asked small le
    exact asked

/-- Without an end the headers go up to half the cap, and where that is within the sizes, they are
not exhausted. -/
theorem completed_growFrom (room : output.sizeCap / 2 + 1 < sizeLimit)
    (ends : range.hasEnd = false) (s : State) (first : Nat) :
    Reached style s.composer → first < sizeLimit →
      (growFrom output guardStyle family range s first).completed = true := by
  fun_induction growFrom output guardStyle family range s first with
  | case1 | case4 => exact fun _ _ => rfl
  | case2 s first reaches next nonempty last found span rest ih =>
    intro reached small
    have written : next.lines ≠ [] := by simpa using nonempty
    have run : next.IsRun style family range first := isRun_nextLines reached reaches
    exact ih run.composer (next_of_headerEnd? found (List.length_pos_iff.2 written)).2
  | case3 s first reaches next nonempty exhausted =>
    intro reached small
    have half : 2 * (first + next.lines.length - 1) ≤ output.sizeCap :=
      two_mul_le_cap_of_open reached reaches small ends (by simpa using nonempty)
    have := headerEnd?_eq_none_iff.1 exhausted
    omega

/-! ### Both families -/

theorem records_withEnums {asked : Request} {selection : Selection} {steps : List Step}
    {s : State} (h : s.Records style (headers steps)) :
    (withEnums output guardStyle selection asked steps s).state.Records style
      (headers (withEnums output guardStyle selection asked steps s).steps) := by
  rw [withEnums]
  cases starts : (if selection.enum then asked.from? Family.enum.least else none) with
  | none => exact h
  | some part =>
    obtain ⟨past, covers⟩ := exists_covers_grow output guardStyle h
      (Option.ite_none_right_eq_some.1 starts).2
    have records := covers.records
    rwa [← headers_append] at records

theorem askedUpTo_withEnums {asked : Request} {selection : Selection} {steps : List Step}
    {s : State} (reached : Reached style s.composer) (before : s.composer.AskedUpTo bound)
    (wide : output.sizeCap / 2 + 1 ≤ bound) (first : max asked.first Family.enum.least ≤ bound)
    (small : max asked.first Family.enum.least < sizeLimit)
    (last : ∀ last, asked.last = some last → last ≤ bound) :
    (withEnums output guardStyle selection asked steps s).state.composer.AskedUpTo bound := by
  rw [withEnums]
  split
  · exact before
  · next part starts =>
    obtain ⟨begins, ends, -⟩ := from?_eq_some (Option.ite_none_right_eq_some.1 starts).2
    have within (bounded : part.hasEnd = true) (n : Nat) (reaches : part.reaches n = true) :
        n ≤ bound := by
      obtain ⟨final, found⟩ := Option.isSome_iff_exists.1 bounded
      rw [Request.reaches, found, Option.all_some, decide_eq_true_eq] at reaches
      exact reaches.trans (last final (ends.symm.trans found))
    exact askedUpTo_growFrom wide within s part.first reached before (begins ▸ small)
      fun _ => begins ▸ first

theorem completed_withEnums {asked : Request} {selection : Selection} {steps : List Step}
    {s : State} (h : s.Records style (headers steps)) (room : output.sizeCap / 2 + 1 < sizeLimit)
    (small : max asked.first Family.enum.least < sizeLimit)
    (last : ∀ last, asked.last = some last → last + 1 < sizeLimit) :
    (withEnums output guardStyle selection asked steps s).completed = true := by
  cases bound : asked.last with
  | some final =>
    obtain ⟨-, -, -, -, -, -, completed⟩ := exists_withEnums output guardStyle selection asked h
    exact completed final bound (last final bound)
  | none =>
    rw [withEnums]
    split
    · rfl
    · next part starts =>
      obtain ⟨begins, ends, -⟩ := from?_eq_some (Option.ite_none_right_eq_some.1 starts).2
      have endless : part.hasEnd = false := by rw [Request.hasEnd, ends, bound]; rfl
      exact completed_growFrom room endless s part.first h.composer (begins ▸ small)

/-- The headers of a range without an end hold sizes up to half the cap. -/
theorem two_mul_last_le {before : List Header} {s : State} (records : s.Records style before)
    (ends : range.hasEnd = false) {first : Nat} (least : family.least ≤ first) :
    ∀ header ∈ headers (growFrom output guardStyle family range s first).steps,
      2 * header.span.last ≤ output.sizeCap := by
  intro header member
  obtain ⟨past, covers⟩ := exists_covers_growFrom s first before records least
  obtain ⟨earlier, later, place⟩ := List.append_of_mem member
  have packed := packed_growFrom s first before records earlier header later place
  have follows := covers.grows.follows place
  have taken := follows.two_mul_le_size guardStyle
    (Span.mem_sizes.2 ⟨follows.forward, Nat.le_refl header.span.last⟩)
  by_contra above
  exact Bool.eq_false_iff.1 ends (packed.alone (by omega)).2

theorem past_le_of_forall {groupLength first past limit : Nat} {before added : List Header}
    (h : Grows style groupLength family before first added past)
    (last : ∀ header ∈ added, header.span.last < limit) : past ≤ max first limit := by
  by_cases empty : added = []
  · rw [h.past_eq empty]
    exact Nat.le_max_left _ _
  · obtain ⟨header, final, ends⟩ := h.getLast? empty
    have := last header (List.mem_of_getLast? final)
    omega

/-- Going on to the enum macros, for a range that starts up to a bound and ends, if at all, below
it. -/
theorem withEnums_spec {asked : Request} {selection : Selection} {steps : List Step}
    {s : State} (h : s.Records style (headers steps)) (before : s.composer.AskedUpTo bound)
    (wide : output.sizeCap / 2 + 1 ≤ bound) (first : max asked.first Family.enum.least ≤ bound)
    (small : max asked.first Family.enum.least < sizeLimit)
    (last : ∀ last, asked.last = some last → last < bound) :
    (withEnums output guardStyle selection asked steps s).state.Records style
      (headers (withEnums output guardStyle selection asked steps s).steps) ∧
    (withEnums output guardStyle selection asked steps s).state.composer.AskedUpTo bound ∧
    (bound < sizeLimit →
      (withEnums output guardStyle selection asked steps s).completed = true) := by
  refine ⟨records_withEnums h, ?asked, fun room => ?completed⟩
  case asked =>
    exact askedUpTo_withEnums h.composer before wide first small fun final ends =>
      (last final ends).le
  case completed =>
    exact completed_withEnums h (by omega) small fun final ends => by
      have := last final ends
      omega

/-- The headers of one family in a range without an end: they ask for no size above a bound that is
above half the cap, they end within it, and all their sizes are up to half the cap. -/
theorem grow_of_endless (output : TreeOutput) (guardStyle : GuardStyle) {before : List Header}
    {s : State} (records : s.Records style before) (asked : s.composer.AskedUpTo bound)
    (wide : output.sizeCap / 2 + 1 ≤ bound) (ends : range.hasEnd = false)
    (least : family.least ≤ range.first) (le : range.first ≤ bound)
    (small : range.first < sizeLimit) :
    (grow output guardStyle family range s).state.composer.AskedUpTo bound ∧
    (bound < sizeLimit → (grow output guardStyle family range s).completed = true) ∧
    ∀ header ∈ headers (grow output guardStyle family range s).steps,
      header.span.last < output.sizeCap / 2 + 1 := by
  refine ⟨?asked, fun room => ?completed, fun header member => ?half⟩
  case asked =>
    have unbounded : ¬range.hasEnd = true := Bool.eq_false_iff.1 ends
    exact askedUpTo_growFrom wide (fun bounded => absurd bounded unbounded) s range.first
      records.composer asked small fun _ => le
  case completed => exact completed_growFrom (by omega) ends s range.first records.composer small
  case half =>
    rw [headers_grow] at member
    have := two_mul_last_le records ends least header member
    omega

/-- In an open range no size is asked for beyond the first above half the cap, and where the sizes
reach that far, they are not exhausted. -/
theorem grown_spec (output : TreeOutput) (guardStyle : GuardStyle) (selection : Selection)
    (style : Style) (endless : range.last = none) (small : range.first < sizeLimit) :
    (grown output guardStyle selection range (.start style)).state.Records style
      (headers (grown output guardStyle selection range (.start style)).steps) ∧
    (grown output guardStyle selection range (.start style)).state.composer.AskedUpTo
      (max range.first (max 2 (output.sizeCap / 2 + 1))) ∧
    (max range.first (max 2 (output.sizeCap / 2 + 1)) < sizeLimit →
      (grown output guardStyle selection range (.start style)).completed = true) := by
  have fresh : State.Records style [] ⟨.start style, .empty, 0⟩ := ⟨.start, rfl, rfl⟩
  have unasked (bound : Nat) : (Composer.start style).AskedUpTo bound :=
    Composer.askedUpTo_start style bound
  have two := two_lt_sizeLimit
  have enum_least : Family.enum.least = 1 := rfl
  have distinct_least : Family.distinct.least = 2 := rfl
  generalize limit : max range.first (max 2 (output.sizeCap / 2 + 1)) = bound
  rw [grown, growDistinct_eq]
  cases starts : (if selection.distinct then range.from? Family.distinct.least else none) with
  | none =>
    refine withEnums_spec (show State.Records style (headers []) _ from fresh)
      (unasked bound) (by omega) ?_ ?_ fun last ends => ?_
    · show max range.first 1 ≤ bound
      omega
    · show max range.first 1 < sizeLimit
      omega
    · cases endless.symm.trans ends
  | some part =>
    obtain ⟨begins, ends, -⟩ := from?_eq_some (Option.ite_none_right_eq_some.1 starts).2
    have open_part : part.hasEnd = false := by rw [Request.hasEnd, ends, endless]; rfl
    obtain ⟨past, covers⟩ := exists_covers_grow output guardStyle fresh
      (Option.ite_none_right_eq_some.1 starts).2
    obtain ⟨asked, completed, half⟩ := grow_of_endless output guardStyle fresh (unasked bound)
      (by omega) open_part (begins ▸ Nat.le_max_right _ _) (by omega) (by omega)
    have past_le := past_le_of_forall covers.grows half
    simp only [Option.map_some, Option.getD_some]
    generalize grow output guardStyle .distinct part ⟨.start style, .empty, 0⟩ = growth at *
    have records : growth.state.Records style (headers growth.steps) := covers.records
    have range_eq := enumRange_some covers.grows
    by_cases done : growth.completed = true
    · rw [if_pos done, range_eq]
      refine withEnums_spec records asked (by omega) ?_ ?_ fun last bounded => ?_
      · show max range.first 1 ≤ bound
        omega
      · show max range.first 1 < sizeLimit
        omega
      · obtain rfl := Option.some.inj bounded
        have := covers.grows.le
        omega
    · rw [if_neg done]
      exact ⟨records, asked, fun room => absurd (completed room) done⟩

end Tree

/-! ### Single headers -/

theorem Composer.AskedUpTo.ofSizes {bound : Nat} {c : Composer} (asked : c.AskedUpTo bound)
    (family : Family) {sizes : List Nat} (le : ∀ n ∈ sizes, n ≤ bound) :
    (Printed.ofSizes c family sizes).composer.AskedUpTo bound := by
  induction sizes generalizing c with
  | nil => exact asked
  | cons n sizes ih =>
    obtain ⟨own, others⟩ := List.forall_mem_cons.1 le
    exact ih (asked.define family own) others

namespace Single

variable {style : Style} {families : List Family} {bound n : Nat} {c : Composer}

theorem reached_sizeAt (reached : Reached style c) (n : Nat) (families : List Family) :
    Reached style (sizeAt c n families).2.2 := by
  induction families generalizing c with
  | nil => exact reached
  | cons family families ih => exact ih (.step family n reached)

theorem askedUpTo_sizeAt (asked : c.AskedUpTo bound) (le : n ≤ bound) (families : List Family) :
    (sizeAt c n families).2.2.AskedUpTo bound := by
  induction families generalizing c with
  | nil => exact asked
  | cons family families ih => exact ih (asked.define family le)

theorem two_mul_le_sizeAt (reached : Reached style c) (selects : families ≠ []) (least : 2 ≤ n)
    (small : n < sizeLimit) : 2 * n ≤ (sizeAt c n families).1 := by
  obtain ⟨family, families, rfl⟩ := List.exists_cons_of_ne_nil selects
  have family_least : family.least ≤ n := family.least_le_two.trans least
  obtain ⟨line, found⟩ := Style.exists_prints reached family_least small
  have prints : style.Prints family n line := ⟨c, reached, found⟩
  show 2 * n ≤ ((c.defineLine family n).1.map Line.size).getD 0 + _
  rw [found]
  exact (prints.two_mul_le_size small).trans (Nat.le_add_right _ _)

/-- The search asks for no size above a bound that is above half the cap. -/
theorem askedUpTo_fitFrom {range : Request} {cap bytes : Nat} {last : Option Nat}
    (reached : Reached style c) (asked : c.AskedUpTo bound) (selects : families ≠ [])
    (wide : cap / 2 + 1 ≤ bound) (two : 2 ≤ bound) (le : n ≤ bound) (small : n < sizeLimit) :
    (fitFrom families range cap c n bytes last).composer.AskedUpTo bound := by
  fun_induction fitFrom families range cap c n bytes last with
  | case1 c n bytes last reaches size events after same full =>
    have later := askedUpTo_sizeAt asked le families
    rwa [same] at later
  | case2 c n bytes last reaches size events after same fits more rest ih =>
    have later := askedUpTo_sizeAt asked le families
    have reached_later := reached_sizeAt reached n families
    have taken := two_mul_le_sizeAt (n := n) reached selects
    rw [same] at later reached_later taken
    refine ih reached_later later ?_ more
    by_cases least : 2 ≤ n
    · have : 2 * n ≤ size := taken least small
      omega
    · omega
  | case3 c n bytes last reaches size events after same fits more =>
    have later := askedUpTo_sizeAt asked le families
    rwa [same] at later
  | case4 => exact asked

theorem askedUpTo_make (asked : c.AskedUpTo bound) (guardStyle : GuardStyle)
    (selection : Selection) {span : Span} (le : span.last ≤ bound) :
    (make c guardStyle selection span).composer.AskedUpTo bound := by
  have added (single : Single) (asked : single.composer.AskedUpTo bound) (family : Family) :
      (addFamily span single family).composer.AskedUpTo bound := by
    rw [addFamily]
    split
    · exact asked
    · next part found =>
      obtain ⟨rfl, -⟩ := familySpan?_eq_some found
      exact asked.ofSizes family fun n member => (Span.mem_sizes.1 member).2.trans le
  have filled (families : List Family) (single : Single)
      (asked : single.composer.AskedUpTo bound) :
      (families.foldl (addFamily span) single).composer.AskedUpTo bound := by
    induction families generalizing single with
    | nil => exact asked
    | cons family families ih => exact ih _ (added single asked family)
  exact filled selection.toList _ asked

end Single

/-- A single header takes up two bytes at least for every parameter of its macros. -/
theorem Style.two_mul_le_sizeBelow (style : Style) (guardStyle : GuardStyle)
    {families : List Family} (selects : families ≠ []) {first past n : Nat} (least : 2 ≤ n)
    (from_first : first ≤ n) (before_past : n < past) :
    2 * n ≤ style.sizeBelow guardStyle families first past := by
  obtain ⟨family, families, rfl⟩ := List.exists_cons_of_ne_nil selects
  have family_least := family.least_le_two
  have member : (n, style.lineFrom first family n) ∈
      (family :: families).flatMap (style.linesBetween first past) := by
    refine List.mem_flatMap.2 ⟨family, List.mem_cons_self, List.mem_map.2 ⟨n, ?_, rfl⟩⟩
    rw [List.mem_range'_1]
    omega
  have params : (style.lineFrom first family n).params = style.params family n := by
    cases family <;> rfl
  have taken := (Style.two_mul_le_size params).trans (Printed.size_le_of_mem member)
  rw [sizeBelow]
  exact taken.trans (Nat.le_add_left _ _)

theorem Selection.toList_ne_nil {selection : Selection} (selects : selection.isEmpty = false) :
    selection.toList ≠ [] := by
  obtain ⟨distinct, enum⟩ := selection
  revert selects
  cases distinct <;> cases enum <;> decide

/-! ### Jobs -/

namespace Job

/-- The largest size that an open range is asked for under a cap. -/
def askLimit (job : Job) (cap : Nat) : Nat := max job.range.first (max 2 (cap / 2 + 1))

variable {job : Job}

theorem askLimit_lt (small : job.range.first < sizeLimit) {cap : Nat} (below : cap < sizeLimit) :
    job.askLimit cap < sizeLimit := by
  have two := two_lt_sizeLimit
  have := Nat.div_le_self cap 2
  rw [askLimit]
  omega

/-- Enum macros after checks go no further than those, and all other headers stay within the cap. -/
theorem two_mul_le_cap_of_mem_headers {output : TreeOutput} (endless : job.range.last = none)
    {header : Header}
    (member : header ∈ Tree.headers (Tree.grown output job.guardStyle job.selected job.range
      (.start job.style)).steps) {n : Nat} (inside : n ∈ header.span.sizes) (least : 2 ≤ n) :
    2 * n ≤ output.sizeCap := by
  obtain ⟨checks, enums, middle, past, built⟩ :=
    Tree.exists_built output job.guardStyle job.selected job.range job.style
  have within {other : Header}
      (member : other ∈ Tree.headers (Tree.grown output job.guardStyle job.selected job.range
        (.start job.style)).steps) (own : n ∈ other.span.sizes)
      (first : ¬(other.family = .enum ∧ job.selected.distinct = true)) :
      2 * n ≤ output.sizeCap := by
    obtain ⟨earlier, later, place⟩ := List.append_of_mem member
    obtain ⟨bounded, packed, allowed⟩ := Tree.exists_packed place
    have taken := (built.follows place).two_mul_le_size job.guardStyle own
    by_contra above
    rcases allowed (packed.alone (by omega)).2 with has_end | second
    · rw [Request.hasEnd, endless] at has_end
      exact absurd has_end (by decide)
    · exact first second
  by_cases second : header.family = .enum ∧ job.selected.distinct = true
  · have of_enums : header ∈ enums := by
      rw [built.joined] at member
      refine (List.mem_append.1 member).resolve_left fun of_checks => ?_
      exact absurd (second.1.symm.trans (built.add_checks.grows.family_eq header of_checks))
        (by decide)
    have bounds := built.add_enums.grows.bounds of_enums
    have sizes := Span.mem_sizes.1 inside
    have called := built.called second.2
    have enum_least : Family.enum.least = 1 := rfl
    have distinct_least : Family.distinct.least = 2 := rfl
    obtain ⟨check, of_checks, own⟩ :=
      built.add_checks.grows.exists_header (n := n) (by omega) (by omega)
    refine within (by rw [built.joined]; exact List.mem_append_left _ of_checks) own fun other => ?_
    exact absurd (other.1.symm.trans (built.add_checks.grows.family_eq check of_checks)) (by decide)
  · exact within member inside second

/-- What comes of an open range in a tree: the headers, and the state in which the last request has
left the tree. -/
structure TreeEndsByCap (job : Job) (output : TreeOutput) (plan : Plan) (headers : List Header)
    (final : Tree.State) : Prop where
  planned : job.plan = .ok plan
  reached : final =
    (Tree.grown output job.guardStyle job.selected job.range (.start job.style)).state
  records : final.Records job.style headers
  asked : final.composer.AskedUpTo (job.askLimit output.sizeCap)
  writes : Plan.writes plan.actions =
    headers.map fun h => (h.path output, h.text job.guardStyle)
  sizes : ∀ h ∈ headers, h.lines.map Prod.fst = h.span.sizes
  half : ∀ h ∈ headers, ∀ n ∈ h.span.sizes, 2 ≤ n → 2 * n ≤ output.sizeCap
  finishes : output.sizeCap < sizeLimit → ∃ summary, plan.ending = .finished summary
  /-- The family that is generated first stops before a macro above the cap. -/
  stops : output.sizeCap < sizeLimit → ∀ family, job.selected.toList.head? = some family →
    ∃ past line,
      (Tree.ofFamily family headers).flatMap (·.span.sizes) =
        List.range' (max job.range.first family.least)
          (past - max job.range.first family.least) ∧
      job.style.Prints family past line ∧
      output.sizeCap < (Header.after output.groupLength (Tree.ofFamily family headers) family
        (.single past) [(past, line)]).size job.guardStyle

/-- What comes of an open range in a single header: its sizes, if it has any, and the composer that
has found them. -/
structure SingleEndsByCap (job : Job) (cap : Nat) (plan : Plan) (span? : Option Span)
    (c : Composer) : Prop where
  planned : job.plan = .ok plan
  found : ∃ events, job.singleSpan (.start job.style) = (span?, events, c)
  asked : c.AskedUpTo (job.askLimit cap)
  asked_make : ∀ span ∈ span?,
    (Single.make c job.guardStyle job.selected span).composer.AskedUpTo (job.askLimit cap)
  silent : span? = none → ∀ disk : Disk,
    (plan.run disk).printed = "" ∧ (plan.run disk).disk = disk
  receives : ∀ span ∈ span?, ∀ disk : Disk,
    (∀ path, job.output = .file path → ∀ fault, (plan.run disk).result ≠ .failed fault) →
    job.output.Receives (job.singleText span.first span.last) disk (plan.run disk)
  half : ∀ span ∈ span?, ∀ n ∈ span.sizes, 2 ≤ n → 2 * n ≤ cap
  /-- With the next size the header would be above the cap. -/
  stops : cap < sizeLimit → cap < (job.singleText job.range.first
    ((span?.map (·.last + 1)).getD job.range.first)).utf8ByteSize

theorem exists_treeEndsByCap (job : Job) (output : TreeOutput)
    (selects : job.families.isEmpty = false) (tree : job.output = .tree output)
    (endless : job.range.last = none) (small : job.range.first < sizeLimit) :
    ∃ plan headers final, job.TreeEndsByCap output plan headers final := by
  obtain ⟨records, asked, completed⟩ :=
    Tree.grown_spec output job.guardStyle job.selected job.style endless small
  have planned := plan_tree selects tree
  refine ⟨_, _, _, planned, rfl, records, asked, Tree.writes_actions [] _, fun h member => ?sizes,
    fun h member n => two_mul_le_cap_of_mem_headers endless member, fun below => ?finishes,
    fun below family first => ?stops⟩
  case sizes =>
    obtain ⟨checks, enums, middle, past, built⟩ :=
      Tree.exists_built output job.guardStyle job.selected job.range job.style
    obtain ⟨earlier, later, place⟩ := List.append_of_mem member
    exact (built.follows place).sizes
  case finishes => exact ⟨_, if_pos (completed (askLimit_lt small below))⟩
  case stops =>
    obtain ⟨past, grows, exhausted | ⟨line, prints, above⟩⟩ :=
      (Tree.emits_first output job.guardStyle job.style endless first).exists_stop rfl
        (Nat.le_max_right _ _) (family.max_least_lt small)
    · exact nomatch (completed (askLimit_lt small below)).symm.trans exhausted
    · exact ⟨past, line, grows.sizes, prints, above⟩

section SingleHeader

variable {cap : Nat}

theorem two_mul_le_cap_of_sizeBelow (selects : job.families.isEmpty = false) {past n : Nat}
    (within : job.style.sizeBelow job.guardStyle job.selected.toList job.range.first past ≤ cap)
    (from_first : job.range.first ≤ n) (before_past : n < past) (least : 2 ≤ n) : 2 * n ≤ cap :=
  have selected := Selection.toList_ne_nil (isEmpty_selected selects)
  (job.style.two_mul_le_sizeBelow job.guardStyle selected least from_first before_past).trans within

theorem askedUpTo_fit (selects : job.families.isEmpty = false)
    (small : job.range.first < sizeLimit) :
    (Single.fit (.start job.style) job.guardStyle job.selected job.range
      cap).composer.AskedUpTo (job.askLimit cap) := by
  have selected := Selection.toList_ne_nil (isEmpty_selected selects)
  have unasked := Composer.askedUpTo_start job.style (job.askLimit cap)
  rw [Single.fit]
  rw [askLimit] at unasked ⊢
  exact Single.askedUpTo_fitFrom .start unasked selected (by omega) (by omega) (by omega) small

/-- No size of the range fits. -/
theorem singleEndsByCap_none {events : List Event} {c : Composer}
    (planned : job.plan = .ok job.singlePlan)
    (found : job.singleSpan (.start job.style) = (none, events, c))
    (asked : c.AskedUpTo (job.askLimit cap))
    (full : cap < (job.singleText job.range.first job.range.first).utf8ByteSize) :
    job.SingleEndsByCap cap job.singlePlan none c := by
  have absent {p : Span → Prop} : ∀ span ∈ (none : Option Span), p span := fun span member =>
    absurd member (Option.not_mem_none span)
  refine ⟨planned, ⟨events, found⟩, asked, absent, fun _ disk => ?silent, absent, absent,
    fun _ => full⟩
  case silent =>
    rw [singlePlan, found, Plan.run, Plan.performAll_map_report]
    exact ⟨rfl, rfl⟩

/-- The header holds the sizes of the range up to the last one that fits. -/
theorem singleEndsByCap_some {events : List Event} {c : Composer} {last : Nat}
    (selects : job.families.isEmpty = false) (single : ∀ tree, job.output ≠ .tree tree)
    (planned : job.plan = .ok job.singlePlan)
    (found : job.singleSpan (.start job.style) = (some ⟨job.range.first, last⟩, events, c))
    (measured : ∀ family ∈ job.selected.toList,
      Composer.Ready job.style job.range.first family job.range.first c)
    (asked : c.AskedUpTo (job.askLimit cap)) (later : job.range.first ≤ last)
    (bound : last < sizeLimit)
    (within : job.style.sizeBelow job.guardStyle job.selected.toList job.range.first (last + 1) ≤
      cap)
    (longest : last + 1 = sizeLimit ∨
      cap < job.style.sizeBelow job.guardStyle job.selected.toList job.range.first
        (last + 1 + 1)) :
    job.SingleEndsByCap cap job.singlePlan (some ⟨job.range.first, last⟩) c := by
  obtain ⟨summary, delivers⟩ := receives_singlePlan single found measured bound
  have half (least : 2 ≤ last) : 2 * last ≤ cap :=
    two_mul_le_cap_of_sizeBelow selects within later (Nat.lt_succ_self last) least
  refine ⟨planned, ⟨events, found⟩, asked, fun _ same => ?make,
    (absurd · (Option.some_ne_none _)), fun _ same disk fine => ?receives,
    fun _ same n member least => ?half, fun below => ?full⟩
  case make =>
    obtain rfl := Option.some.inj same
    refine Single.askedUpTo_make asked _ _ ?_
    show last ≤ max job.range.first (max 2 (cap / 2 + 1))
    omega
  case receives =>
    obtain rfl := Option.some.inj same
    exact (delivers disk fine).2
  case half =>
    obtain rfl := Option.some.inj same
    obtain ⟨from_first, to_last⟩ := Span.mem_sizes.1 member
    exact two_mul_le_cap_of_sizeBelow selects within from_first (Nat.lt_succ_of_le to_last) least
  case full =>
    have wide := two_lt_sizeLimit
    have more : last + 1 < sizeLimit := by omega
    show cap < (job.singleText job.range.first (last + 1)).utf8ByteSize
    rw [job.utf8ByteSize_singleText _ more]
    exact longest.resolve_left (Nat.ne_of_lt more)

end SingleHeader

theorem exists_singleEndsByCap (job : Job) (cap : Nat) (selects : job.families.isEmpty = false)
    (single : ∀ tree, job.output ≠ .tree tree) (endless : job.range.last = none)
    (capped : job.headerCap = some cap) (small : job.range.first < sizeLimit) :
    ∃ plan span? c, job.SingleEndsByCap cap plan span? c := by
  have start : ∀ family ∈ job.selected.toList,
      Composer.Ready job.style job.range.first family job.range.first (.start job.style) :=
    fun family _ => Composer.ready_start job.style job.range.first family
  have planned : job.plan = .ok job.singlePlan :=
    plan_single selects single (.inr (by rw [capped]; rfl))
  obtain ⟨events, span⟩ := singleSpan_of_endless endless capped (.start job.style)
  -- The search stops at once, or it has found a last size.
  rcases Single.last_fitFrom cap none endless start (Nat.le_refl _) small
      (Style.sizeBelow_self job.style job.guardStyle job.selected.toList job.range.first).symm with
    ⟨full, none_fits⟩ | ⟨-, last, later, bound, some_fits, within, longest⟩
  · rw [Single.fit, none_fits, Option.bind_none] at span
    rw [← job.utf8ByteSize_singleText _ small] at full
    exact ⟨_, none, _, singleEndsByCap_none planned span (askedUpTo_fit selects small) full⟩
  · rw [Single.fit, some_fits, Option.bind_some, Span.of?, if_pos later] at span
    have measured : ∀ family ∈ job.selected.toList, Composer.Ready job.style job.range.first family
        job.range.first (Single.fit (.start job.style) job.guardStyle job.selected job.range
          cap).composer :=
      fun family member => Single.ready_fitFrom (start family member) (Nat.le_refl _) small
    exact ⟨_, _, _, singleEndsByCap_some selects single planned span measured
      (askedUpTo_fit selects small) later bound within longest⟩

/-- An open range ends because of the cap. Neither family writes a macro of a size above half the
cap, from size two on, and none is asked for above the first such size, unless the range starts
there; so a cap that is itself a size ends every run before the sizes are exhausted, at a macro with
which a header would be above the cap. -/
theorem open_range_ends_by_cap (job : Job) (selects : job.families.isEmpty = false)
    (endless : job.range.last = none) (small : job.range.first < sizeLimit) :
    (∀ output, job.output = .tree output →
      ∃ plan headers final, job.TreeEndsByCap output plan headers final) ∧
    ∀ cap, (∀ tree, job.output ≠ .tree tree) → job.headerCap = some cap →
      ∃ plan span? c, job.SingleEndsByCap cap plan span? c :=
  ⟨fun output tree => exists_treeEndsByCap job output selects tree endless small,
    fun cap single capped => exists_singleEndsByCap job cap selects single endless capped small⟩

/-- Under a cap of 100 bytes no macro above size 50 is written and none above size 51 asked for,
into a tree or into a single header. -/
theorem open_range_ends_by_cap_of_100 :
    (∃ plan headers final,
      TreeEndsByCap ⟨⟨0, none⟩, .all, .added, .classic, .standard, .tree ⟨"out", 100, 2⟩, none⟩
        ⟨"out", 100, 2⟩ plan headers final ∧
      (∃ summary, plan.ending = .finished summary) ∧ final.composer.AskedUpTo 51 ∧
      ∀ h ∈ headers, ∀ n ∈ h.span.sizes, n ≤ 50) ∧
    ∃ plan span? c,
      SingleEndsByCap ⟨⟨0, none⟩, .all, .added, .classic, .standard, .stdout, some 100⟩ 100 plan
        span? c ∧
      c.AskedUpTo 51 ∧ ∀ span ∈ span?, ∀ n ∈ span.sizes, n ≤ 50 := by
  obtain ⟨plan, headers, final, tree⟩ := (open_range_ends_by_cap
    ⟨⟨0, none⟩, .all, .added, .classic, .standard, .tree ⟨"out", 100, 2⟩, none⟩ rfl rfl
    (by decide)).1 ⟨"out", 100, 2⟩ rfl
  obtain ⟨plan', span?, c, single⟩ := (open_range_ends_by_cap
    ⟨⟨0, none⟩, .all, .added, .classic, .standard, .stdout, some 100⟩ rfl rfl
    (by decide)).2 100 (fun _ => Output.noConfusion) rfl
  refine ⟨⟨plan, headers, final, tree, tree.finishes (by decide), tree.asked,
    fun h member n inside => ?_⟩, plan', span?, c, single, single.asked,
    fun span member n inside => ?_⟩
  · by_contra above
    have := tree.half h member n inside (by omega)
    simp only at this
    omega
  · by_contra above
    have := single.half span member n inside (by omega)
    omega

end Job

end EnumMacros
