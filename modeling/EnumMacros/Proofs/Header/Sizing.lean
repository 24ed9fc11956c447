import EnumMacros.Header.Tree
import EnumMacros.Proofs.Definition.Counting
import EnumMacros.Proofs.Header.Growth

/-! The bytes of a header. What is counted ahead of writing, for the guard, the includes and each
definition line, adds up to the bytes of the text; so a header is filled as far as the cap allows,
and one more line would not have fitted. -/

namespace EnumMacros

open Composer (Reached)

/-! ### Texts -/

/-- The bytes that definition lines are counted to take up. -/
def Printed.size (lines : List (Nat × Line)) : Nat := total (lines.map (·.2.size))

theorem Printed.size_append (lines others : List (Nat × Line)) :
    size (lines ++ others) = size lines + size others := by
  rw [size, size, size, List.map_append, total_append]

theorem Printed.size_singleton (n : Nat) (line : Line) : size [(n, line)] = line.size :=
  Nat.add_zero _

theorem Printed.utf8ByteSize_text (lines : List (Nat × Line)) :
    (Printed.text lines).utf8ByteSize = size lines := by
  rw [Printed.text, utf8ByteSize_join, List.map_map, size]
  congr 1
  exact List.map_congr_left fun entry _ => entry.2.utf8ByteSize_text

/-- The bytes of a header as it is written. -/
def Header.size (guardStyle : GuardStyle) (h : Header) : Nat := (h.text guardStyle).utf8ByteSize

/-- The header that holds some lines after some other headers. -/
def Header.after (groupLength : Nat) (before : List Header) (family : Family) (span : Span)
    (lines : List (Nat × Line)) : Header :=
  { family, span, lines
    number := before.length
    included := Tree.includePaths (Tree.indexOf before) groupLength family span }

namespace Tree

variable {style : Style} {output : TreeOutput} {guardStyle : GuardStyle} {family : Family}
  {range : Request}

theorem State.Records.header_eq {before : List Header} {s : State} (h : s.Records style before)
    (output : TreeOutput) (family : Family) (span : Span) (lines : List (Nat × Line)) :
    s.header output family span lines = .after output.groupLength before family span lines := by
  rw [State.header, Header.after, h.index, h.count]

/-- The bytes counted for a header are those written. -/
theorem State.Records.size_after {before : List Header} {s : State} (h : s.Records style before)
    (output : TreeOutput) (guardStyle : GuardStyle) (family : Family) (span : Span)
    (lines : List (Nat × Line)) :
    (Header.after output.groupLength before family span lines).size guardStyle =
      s.frame output guardStyle family span + Printed.size lines := by
  rw [← h.header_eq, Header.size, Header.text, State.frame, GuardStyle.size]
  simp only [String.utf8ByteSize_append, Printed.utf8ByteSize_text, State.header]
  omega

/-! ### Filling a header -/

/-- The lines of a run from size `n` on fit into a header with the sizes from `first` on of which
some bytes are taken, and the line after them would not. -/
structure Fits (frame : Span → Nat) (cap : Nat) (family : Family) (range : Request)
    (first n bytes : Nat) (p : Printed) : Prop where
  within : p.lines ≠ [] →
    frame ⟨first, n + p.lines.length - 1⟩ + bytes + Printed.size p.lines ≤ cap
  full : range.reaches (n + p.lines.length) = true → n + p.lines.length < sizeLimit →
    ∀ line, (p.composer.defineLine family (n + p.lines.length)).1 = some line →
      cap < frame ⟨first, n + p.lines.length⟩ + bytes + Printed.size p.lines + line.size

theorem fits_fillFrom (frame : Span → Nat) (cap : Nat) {c : Composer} (reached : Reached style c)
    (first n bytes : Nat) :
    Fits frame cap family range first n bytes
      (fillFrom frame cap family range c first n bytes) := by
  fun_induction fillFrom frame cap family range c first n bytes with
  | case1 c n bytes reaches after same =>
    refine ⟨fun some_line => absurd rfl some_line, fun _ small line found => ?_⟩
    have again := reached.steady.defineLine_again family (show n < sizeLimit from small)
    rw [same] at again
    exact absurd (again.symm.trans found) (by simp)
  | case2 c n bytes reaches line after same full =>
    refine ⟨fun some_line => absurd rfl some_line, fun _ small line' found => ?_⟩
    have again := reached.steady.defineLine_again family (show n < sizeLimit from small)
    rw [same] at again
    obtain rfl : line = line' := Option.some.inj (again.symm.trans found)
    exact full
  | case3 c n bytes reaches line after same fits more rest ih =>
    -- The rest is filled as if the bytes of this line had been taken before.
    have rest_fits : Fits frame cap family range first (n + 1) (bytes + line.size) rest :=
      ih (reached.defineLine same)
    have place : n + (rest.lines.length + 1) = n + 1 + rest.lines.length := by omega
    refine ⟨fun _ => ?_, fun goes_on small line' found => ?_⟩
    · show frame ⟨first, n + (rest.lines.length + 1) - 1⟩ + bytes +
        (line.size + Printed.size rest.lines) ≤ cap
      rw [place]
      by_cases last : rest.lines = []
      · rw [last]
        show frame ⟨first, n⟩ + bytes + (line.size + 0) ≤ cap
        omega
      · have whole := rest_fits.within last
        omega
    · change range.reaches (n + (rest.lines.length + 1)) = true at goes_on
      change n + (rest.lines.length + 1) < sizeLimit at small
      change (rest.composer.defineLine family (n + (rest.lines.length + 1))).1 = some line' at found
      show cap < frame ⟨first, n + (rest.lines.length + 1)⟩ + bytes +
        (line.size + Printed.size rest.lines) + line'.size
      rw [place] at *
      have full := rest_fits.full goes_on small line' found
      omega
  | case4 c n bytes reaches line after same fits more =>
    refine ⟨fun _ => ?_, fun _ small => ?_⟩
    · show frame ⟨first, n⟩ + bytes + (line.size + 0) ≤ cap
      omega
    · exact absurd small more
  | case5 c n bytes past =>
    exact ⟨fun some_line => absurd rfl some_line, fun reaches => absurd reaches past⟩

/-- A run starts with what the composer would write next, if it is not empty. -/
theorem fillFrom_first (frame : Span → Nat) (cap : Nat) {c : Composer} (reached : Reached style c)
    (first n bytes : Nat) (small : n < sizeLimit) :
    (∃ line others, (fillFrom frame cap family range c first n bytes).lines = (n, line) :: others ∧
      (c.defineLine family n).1 = some line) ∨
    (fillFrom frame cap family range c first n bytes).lines = [] ∧
      ((fillFrom frame cap family range c first n bytes).composer.defineLine family n).1 =
        (c.defineLine family n).1 := by
  have again := reached.steady.defineLine_again family small
  fun_cases fillFrom frame cap family range c first n bytes with
  | case1 reaches after same =>
    rw [same] at again ⊢
    exact .inr ⟨rfl, again⟩
  | case2 reaches line after same full =>
    rw [same] at again ⊢
    exact .inr ⟨rfl, again⟩
  | case3 reaches line after same fits more rest =>
    rw [same]
    exact .inl ⟨line, rest.lines, rfl, rfl⟩
  | case4 reaches line after same fits more =>
    rw [same]
    exact .inl ⟨line, [], rfl, rfl⟩
  | case5 past => exact .inr ⟨rfl, rfl⟩

section NextLines

variable {s : State} {first : Nat}

theorem fits_fill (reached : Reached style s.composer) :
    Fits (s.frame output guardStyle family) output.sizeCap family range first first 0
      (fill output guardStyle s family range first) :=
  fits_fillFrom (s.frame output guardStyle family) output.sizeCap reached first first 0

theorem fill_first (reached : Reached style s.composer) (small : first < sizeLimit) :
    (∃ line others, (fill output guardStyle s family range first).lines = (first, line) :: others ∧
      (s.composer.defineLine family first).1 = some line) ∨
    (fill output guardStyle s family range first).lines = [] ∧
      ((fill output guardStyle s family range first).composer.defineLine family first).1 =
        (s.composer.defineLine family first).1 :=
  fillFrom_first (s.frame output guardStyle family) output.sizeCap reached first first 0 small

/-- Where nothing fits, the first line is above the cap by itself. -/
theorem above_of_fill_eq_nil (reached : Reached style s.composer)
    (reaches : range.reaches first = true) (small : first < sizeLimit)
    (empty : (fill output guardStyle s family range first).lines = []) {line : Line}
    (found : ((fill output guardStyle s family range first).composer.defineLine family first).1 =
      some line) :
    output.sizeCap < s.frame output guardStyle family ⟨first, first⟩ + line.size := by
  have fits : Fits _ _ family range first first 0 (fill output guardStyle s family range first) :=
    fits_fill reached
  have full := fits.full (by rwa [empty]) (by rwa [empty]) line (by rwa [empty])
  rw [empty] at full
  change output.sizeCap < s.frame output guardStyle family ⟨first, first⟩ + 0 + 0 + line.size
    at full
  omega

/-- The lines of a header are those that fit, or a line that did not. -/
theorem nextLines_cases (output : TreeOutput) (guardStyle : GuardStyle) (s : State)
    (family : Family) (range : Request) (first : Nat) :
    ((nextLines output guardStyle s family range first).lines =
        (fill output guardStyle s family range first).lines ∧
      (nextLines output guardStyle s family range first).composer =
        (fill output guardStyle s family range first).composer ∧
      ((fill output guardStyle s family range first).lines = [] → range.hasEnd = false)) ∨
    (fill output guardStyle s family range first).lines = [] ∧ range.hasEnd = true ∧
      (nextLines output guardStyle s family range first).lines =
        (((fill output guardStyle s family range first).composer.defineLine family first).1.map
          (first, ·)).toList := by
  fun_cases nextLines output guardStyle s family range first with
  | case1 filled entry rest same =>
    refine .inl ⟨rfl, rfl, fun empty => ?_⟩
    exact absurd (same.symm.trans empty) (List.cons_ne_nil _ _)
  | case2 filled empty bounded line after same => exact .inr ⟨empty, bounded, by rw [same]⟩
  | case3 filled empty ends => exact .inl ⟨rfl, rfl, fun _ => Bool.eq_false_iff.2 ends⟩

/-- The first line of a header is what the composer would write next, even where that has been
tried before and was found too large. -/
theorem nextLines_first (reached : Reached style s.composer) (small : first < sizeLimit)
    (nonempty : (nextLines output guardStyle s family range first).lines ≠ []) :
    ∃ line others, (nextLines output guardStyle s family range first).lines =
      (first, line) :: others ∧ (s.composer.defineLine family first).1 = some line := by
  rcases nextLines_cases output guardStyle s family range first with
    ⟨lines, -, -⟩ | ⟨empty, -, lines⟩
  · rw [lines] at nonempty ⊢
    rcases fill_first reached small with found | ⟨empty, -⟩
    · exact found
    · exact absurd empty nonempty
  · rw [lines] at nonempty ⊢
    rcases fill_first reached small with ⟨line, others, some_line, -⟩ | ⟨-, again⟩
    · exact absurd (some_line.symm.trans empty) (List.cons_ne_nil _ _)
    · rw [again] at nonempty ⊢
      cases found : (s.composer.defineLine family first).1 with
      | none => exact absurd (by rw [found]; rfl) nonempty
      | some line => exact ⟨line, [], rfl, rfl⟩

/-- A header above the cap holds a single macro, and there is none in an open range. -/
theorem nextLines_alone (reached : Reached style s.composer)
    (nonempty : (nextLines output guardStyle s family range first).lines ≠ [])
    (large : output.sizeCap < s.frame output guardStyle family
        ⟨first, first + (nextLines output guardStyle s family range first).lines.length - 1⟩ +
      Printed.size (nextLines output guardStyle s family range first).lines) :
    (nextLines output guardStyle s family range first).lines.length = 1 ∧ range.hasEnd = true := by
  rcases nextLines_cases output guardStyle s family range first with
    ⟨lines, -, -⟩ | ⟨-, bounded, lines⟩
  · rw [lines] at nonempty large
    have within := (fits_fill reached).within nonempty
    omega
  · refine ⟨?_, bounded⟩
    rw [lines] at nonempty ⊢
    match written : ((fill output guardStyle s family range first).composer.defineLine
        family first).1 with
    | none => exact absurd (by rw [written]; rfl) nonempty
    | some line => rfl

/-- A header within the cap has no room for the next line. -/
theorem nextLines_full (reached : Reached style s.composer) (reaches : range.reaches first = true)
    (nonempty : (nextLines output guardStyle s family range first).lines ≠ [])
    (within : s.frame output guardStyle family
        ⟨first, first + (nextLines output guardStyle s family range first).lines.length - 1⟩ +
      Printed.size (nextLines output guardStyle s family range first).lines ≤ output.sizeCap)
    {past : Nat}
    (meets : first + (nextLines output guardStyle s family range first).lines.length = past)
    (goes_on : range.reaches past = true) (small : past < sizeLimit) {line : Line}
    (found : ((nextLines output guardStyle s family range first).composer.defineLine
      family past).1 = some line) :
    output.sizeCap < s.frame output guardStyle family ⟨first, past⟩ +
      Printed.size (nextLines output guardStyle s family range first).lines + line.size := by
  rcases nextLines_cases output guardStyle s family range first with
    ⟨lines, composer, -⟩ | ⟨empty, -, lines⟩
  · rw [composer] at found
    rw [lines] at meets ⊢
    subst meets
    exact (fits_fill reached).full goes_on small line found
  · -- The only line has been found not to fit, so the header is not within the cap.
    rw [lines] at nonempty within
    match written : ((fill output guardStyle s family range first).composer.defineLine
        family first).1 with
    | none => exact absurd (by rw [written]; rfl) nonempty
    | some alone =>
      have above := above_of_fill_eq_nil reached reaches (by omega) empty written
      rw [written] at within
      change s.frame output guardStyle family ⟨first, first⟩ + (alone.size + 0) ≤ output.sizeCap
        at within
      omega

/-- Where no header comes next, its first line is above the cap by itself. -/
theorem nextLines_stops (reached : Reached style s.composer) (reaches : range.reaches first = true)
    (small : first < sizeLimit)
    (empty : (nextLines output guardStyle s family range first).lines = []) {line : Line}
    (found : (s.composer.defineLine family first).1 = some line) :
    output.sizeCap < s.frame output guardStyle family ⟨first, first⟩ + line.size := by
  rcases fill_first reached small with ⟨other, others, some_line, -⟩ | ⟨nothing, again⟩
  · rcases nextLines_cases output guardStyle s family range first with
      ⟨lines, -, -⟩ | ⟨nothing, -, -⟩
    · exact absurd (some_line.symm.trans (lines.symm.trans empty)) (List.cons_ne_nil _ _)
    · exact absurd (some_line.symm.trans nothing) (List.cons_ne_nil _ _)
  · exact above_of_fill_eq_nil reached reaches small nothing (again.trans found)

end NextLines

end Tree

end EnumMacros
