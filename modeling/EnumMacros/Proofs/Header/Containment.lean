import EnumMacros.Proofs.Header.Agreement

/-! A single header that starts at the bottom contains what it calls. Its definitions come in order,
checks before enum macros and smaller sizes before larger ones, with no size left out between; and a
check is called by larger checks only, or by an enum macro. So each call finds its check further up,
`calls_defined_before`. -/

namespace EnumMacros

open Composer (Reached)
open Preprocessor (symbols)

namespace Composer

variable {style : Style} {c : Composer}

theorem Reached.ofSizes (h : Reached style c) (family : Family) (sizes : List Nat) :
    Reached style (Printed.ofSizes c family sizes).composer := by
  induction sizes generalizing c with
  | nil => exact h
  | cons n sizes ih => exact ih (.step family n h)

/-- Every size that is asked for has a line. -/
theorem Reached.lines_ofSizes (h : Reached style c) {family : Family} {sizes : List Nat}
    (bounds : ∀ n ∈ sizes, family.least ≤ n ∧ n < sizeLimit) :
    (Printed.ofSizes c family sizes).lines.map Prod.fst = sizes ∧
      ∀ entry ∈ (Printed.ofSizes c family sizes).lines, style.Prints family entry.1 entry.2 := by
  induction sizes generalizing c with
  | nil => exact ⟨rfl, fun _ member => absurd member List.not_mem_nil⟩
  | cons n sizes ih =>
    obtain ⟨⟨least, small⟩, others⟩ := List.forall_mem_cons.1 bounds
    obtain ⟨line, found⟩ := Style.exists_prints h least small
    obtain ⟨listed, printed⟩ := ih (.step family n h) others
    have lines : (Printed.ofSizes c family (n :: sizes)).lines =
        (n, line) :: (Printed.ofSizes (c.define family n).2 family sizes).lines := by
      show ((c.defineLine family n).1.map (n, ·)).toList ++ _ = _
      rw [found]
      rfl
    rw [lines, List.map_cons, listed]
    exact ⟨rfl, List.forall_mem_cons.2 ⟨⟨c, h, found⟩, printed⟩⟩

end Composer

namespace Single

/-! ### The definitions of a header -/

/-- A definition in a header: the macro of a family and size, and its line. -/
structure Entry where
  family : Family
  size : Nat
  line : Line
  deriving DecidableEq

/-- The sizes of a span for which the family has macros. -/
def sizesOf (span : Span) (family : Family) : List Nat :=
  (⟨max span.first family.least, span.last⟩ : Span).sizes

/-- The definitions that a composer puts into a header, family by family. -/
def entries (c : Composer) (span : Span) : List Family → List Entry
  | [] => []
  | family :: families =>
    let printed := Printed.ofSizes c family (sizesOf span family)
    printed.lines.map (fun (n, line) => ⟨family, n, line⟩) ++
      entries printed.composer span families

variable {style : Style} {c : Composer} {span : Span} {families : List Family}

theorem addFamily_eq (span : Span) (single : Single) (family : Family) :
    (addFamily span single family).text = single.text ++
        Printed.text (Printed.ofSizes single.composer family (sizesOf span family)).lines ∧
      (addFamily span single family).composer =
        (Printed.ofSizes single.composer family (sizesOf span family)).composer := by
  rw [addFamily]
  split
  · next empty =>
    have none_left : sizesOf span family = [] := by
      rw [familySpan?, Span.of?] at empty
      split_ifs at empty with forward
      rw [sizesOf, Span.sizes, Nat.sub_eq_zero_of_le (Nat.lt_of_not_le forward)]
      rfl
    rw [none_left]
    exact ⟨String.append_empty.symm, rfl⟩
  · next part found =>
    obtain ⟨rfl, -⟩ := familySpan?_eq_some found
    exact ⟨rfl, rfl⟩

theorem text_foldl_addFamily (single : Single) :
    (families.foldl (addFamily span) single).text = single.text ++
      Printed.text ((entries single.composer span families).map fun e => (e.size, e.line)) := by
  induction families generalizing single with
  | nil => exact String.append_empty.symm
  | cons family families ih =>
    obtain ⟨text, composer⟩ := addFamily_eq span single family
    rw [List.foldl_cons, ih, text, composer, entries, List.map_append, Printed.text_append,
      String.append_assoc, List.map_map]
    congr 3
    exact (List.map_id _).symm

theorem text_make_eq_entries (c : Composer) (guardStyle : GuardStyle) (selection : Selection)
    (span : Span) :
    (make c guardStyle selection span).text = guardStyle.opening (GuardStyle.tag 0) ++
      Printed.text ((entries c span selection.toList).map fun e => (e.size, e.line)) ++
      guardStyle.closing :=
  congrArg (· ++ guardStyle.closing) (text_foldl_addFamily _)

theorem mem_sizesOf {family : Family} {n : Nat} :
    n ∈ sizesOf span family ↔ (span.first ≤ n ∧ family.least ≤ n) ∧ n ≤ span.last := by
  rw [sizesOf, Span.mem_sizes, Nat.max_le]

/-- The definitions are those of the sizes of each family, in order. -/
theorem keys_entries (reached : Reached style c) (small : span.last < sizeLimit) :
    ((entries c span families).map fun e => (e.family, e.size)) =
        families.flatMap (fun family => (sizesOf span family).map (family, ·)) ∧
      ∀ e ∈ entries c span families, style.Prints e.family e.size e.line := by
  induction families generalizing c with
  | nil => exact ⟨rfl, fun _ member => absurd member List.not_mem_nil⟩
  | cons family families ih =>
    have bounds : ∀ n ∈ sizesOf span family, family.least ≤ n ∧ n < sizeLimit := by
      intro n member
      have := mem_sizesOf.1 member
      exact ⟨this.1.2, this.2.trans_lt small⟩
    obtain ⟨listed, printed⟩ := reached.lines_ofSizes bounds
    obtain ⟨keys, others⟩ := ih (reached.ofSizes family (sizesOf span family))
    constructor
    · rw [entries, List.map_append, keys, List.flatMap_cons, List.map_map]
      congr 1
      conv_rhs => rw [← listed, List.map_map]
      rfl
    · exact List.forall_mem_append.2 ⟨List.forall_mem_map.2 printed, others⟩

/-- One definition comes before another. -/
def Entry.Precedes (e f : Entry) : Prop :=
  e.family = f.family ∧ e.size < f.size ∨ e.family = .distinct ∧ f.family = .enum

theorem pairwise_entries (reached : Reached style c) (small : span.last < sizeLimit)
    (selection : Selection) :
    (entries c span selection.toList).Pairwise Entry.Precedes := by
  have families : selection.toList.Pairwise fun f g => f = .distinct ∧ g = .enum := by
    obtain ⟨distinct, enum⟩ := selection
    revert distinct enum
    decide
  have keys : ((entries c span selection.toList).map fun e => (e.family, e.size)).Pairwise
      fun k l => k.1 = l.1 ∧ k.2 < l.2 ∨ k.1 = .distinct ∧ l.1 = .enum := by
    rw [(keys_entries reached small).1, List.pairwise_flatMap]
    constructor
    · intro family _
      have sizes : (sizesOf span family).Pairwise (· < ·) := List.pairwise_lt_range' _
      exact List.pairwise_map.2 (sizes.imp fun less => .inl ⟨rfl, less⟩)
    · refine families.imp fun order k left l right => ?_
      obtain ⟨n, -, rfl⟩ := List.mem_map.1 left
      obtain ⟨m, -, rfl⟩ := List.mem_map.1 right
      exact .inr order
  rw [List.pairwise_map] at keys
  exact keys

theorem size_mem_of_mem_entries (reached : Reached style c) (small : span.last < sizeLimit)
    {e : Entry} (member : e ∈ entries c span families) : e.size ∈ sizesOf span e.family := by
  have key : (e.family, e.size) ∈ (entries c span families).map fun e => (e.family, e.size) :=
    List.mem_map_of_mem member
  rw [(keys_entries reached small).1, List.mem_flatMap] at key
  obtain ⟨family, -, inside⟩ := key
  obtain ⟨n, among, same⟩ := List.mem_map.1 inside
  rw [← (Prod.mk.inj same).1, ← (Prod.mk.inj same).2]
  exact among

theorem prints_of_mem_entries (reached : Reached style c) (small : span.last < sizeLimit)
    {e : Entry} (member : e ∈ entries c span families) :
    style.Prints e.family e.size e.line ∧ e.size < sizeLimit := by
  have last := (mem_sizesOf.1 (size_mem_of_mem_entries reached small member)).2
  exact ⟨(keys_entries reached small).2 e member, last.trans_lt small⟩

theorem exists_entry (reached : Reached style c) (small : span.last < sizeLimit) {family : Family}
    (chosen : family ∈ families) {n : Nat} (inside : n ∈ sizesOf span family) :
    ∃ e ∈ entries c span families, e.family = family ∧ e.size = n := by
  have key : (family, n) ∈ (entries c span families).map fun e => (e.family, e.size) := by
    rw [(keys_entries reached small).1, List.mem_flatMap]
    exact ⟨family, chosen, List.mem_map_of_mem inside⟩
  obtain ⟨e, member, same⟩ := List.mem_map.1 key
  exact ⟨e, member, Prod.mk.inj same⟩

/-- In a header from the bottom on, the smaller checks stand before a definition, and before an
enum macro that of its own size too. -/
theorem exists_check_before (reached : Reached style c) (small : span.last < sizeLimit)
    {selection : Selection} (chosen : selection.distinct = true) (bottom : span.first ≤ 2)
    {before after : List Entry} {e : Entry}
    (split : entries c span selection.toList = before ++ e :: after) {m : Nat} (least : 2 ≤ m)
    (within : m ≤ e.size) (smaller : e.family = .distinct → m < e.size) :
    ∃ check ∈ before, check.family = .distinct ∧ check.size = m := by
  have own : e ∈ entries c span selection.toList := by rw [split]; simp
  have last := (mem_sizesOf.1 (size_mem_of_mem_entries reached small own)).2
  have family : Family.distinct ∈ selection.toList := by
    simp [Selection.toList, Selection.contains, chosen]
  obtain ⟨check, member, isCheck, rfl⟩ := exists_entry reached small family
    (mem_sizesOf.2 ⟨⟨bottom.trans least, least⟩, within.trans last⟩)
  have ordered := pairwise_entries reached small selection
  rw [split] at member ordered
  rcases List.mem_append.1 member with earlier | others
  · exact ⟨check, earlier, isCheck, rfl⟩
  -- What does not come before the definition is the definition itself, or comes after it.
  · rcases List.mem_cons.1 others with rfl | behind
    · exact absurd (smaller isCheck) (lt_irrefl _)
    · obtain ⟨-, later, -⟩ := List.pairwise_append.1 ordered
      rcases (List.pairwise_cons.1 later).1 check behind with ⟨same, less⟩ | ⟨-, enum⟩
      · exact absurd (smaller (same.trans isCheck)) less.not_gt
      · exact absurd (isCheck.symm.trans enum) (by decide)

/-! ### Calls -/

/-- A definition calls nothing but the assertion and checks that stand before it. Each call has as
many arguments as the check has parameters; that number is the check's size, at least two, and in a
check less than its own size. -/
structure Entry.CallsBack (style : Style) (before : List Entry) (e : Entry) (d : Definition) :
    Prop where
  line : e.line = d.line style.assertion
  name : d.name = style.macroName e.family e.size
  text : ∀ name, Preprocessor.Calls (symbols e.line.body) name →
    name = assertWord ∨ ∃ call ∈ d.body.called, call.callee = name
  calls : ∀ call ∈ d.body.called, ∃ check ∈ before, check.family = .distinct ∧
    call.callee = style.macroName .distinct check.size ∧ check.line.name = call.callee ∧
    call.arguments.length = check.size ∧ check.line.params.length = check.size ∧
    2 ≤ check.size ∧ (e.family = .distinct → check.size < e.size)

theorem exists_callsBack (accepted : style.IsAccepted) (reached : Reached style c)
    (small : span.last < sizeLimit) {selection : Selection} (chosen : selection.distinct = true)
    (bottom : span.first ≤ 2) {before after : List Entry} {e : Entry}
    (split : entries c span selection.toList = before ++ e :: after) :
    ∃ d, e.CallsBack style before d := by
  have inside : ∀ f ∈ before ++ e :: after,
      style.Prints f.family f.size f.line ∧ f.size < sizeLimit := by
    rw [← split]
    exact fun f member => prints_of_mem_entries reached small member
  obtain ⟨prints, bound⟩ := inside e (by simp)
  obtain ⟨d, line, name, readable, called⟩ := prints.exists_definition bound accepted
  refine ⟨d, line, name, fun word call => ?_, fun call member => ?_⟩
  · rw [line] at call
    exact Definition.exists_called_of_calls readable call
  · obtain ⟨m, callee, arguments, two, within, smaller⟩ := called call member
    obtain ⟨check, earlier, isCheck, rfl⟩ :=
      exists_check_before reached small chosen bottom split two within smaller
    obtain ⟨printed, bound⟩ := inside check (List.mem_append_left _ earlier)
    rw [isCheck] at printed
    obtain ⟨definition, defines, same⟩ := printed.isCheck bound
    have named : check.line.name = call.callee := by rw [callee, same]; exact defines.name
    have params : check.line.params.length = check.size := by rw [same]; exact defines.length
    exact ⟨check, earlier, isCheck, callee, named, arguments, params, two, smaller⟩

/-- A header with checks from the bottom on contains what it calls, whatever has been asked of the
composer before. It holds the macros of each family's sizes in order, its text is that of their
definitions between the lines of its guard, and whichever of them one looks at, the checks that it
calls are defined before it. -/
theorem calls_defined_before (accepted : style.IsAccepted) (reached : Reached style c)
    (guardStyle : GuardStyle) {selection : Selection} (chosen : selection.distinct = true)
    (bottom : span.first ≤ 2) (small : span.last < sizeLimit) :
    ∃ entries : List Entry,
      (entries.map fun e => (e.family, e.size)) =
        selection.toList.flatMap (fun family => (sizesOf span family).map (family, ·)) ∧
      (make c guardStyle selection span).text = guardStyle.opening (GuardStyle.tag 0) ++
        String.join (entries.map (·.line.text)) ++ guardStyle.closing ∧
      definitionLines (make c guardStyle selection span).text = entries.map (·.line.written) ∧
      ∀ before e after, entries = before ++ e :: after → ∃ d, e.CallsBack style before d := by
  have text := text_make_eq_entries c guardStyle selection span
  have keys : ((entries c span selection.toList).map fun e => (e.family, e.size)) = _ :=
    (keys_entries reached small).1
  refine ⟨entries c span selection.toList, keys, ?_, ?_, fun before e after split => ?_⟩
  · rw [text, Printed.text, List.map_map]
    rfl
  · rw [text, definitionLines_text guardStyle, List.map_map]
    · rfl
    · refine List.forall_mem_map.2 fun e member => ?_
      obtain ⟨prints, bound⟩ := prints_of_mem_entries reached small member
      exact prints.isDefinitionLine bound accepted
  · exact exists_callsBack accepted reached small chosen bottom split

/-- The checks of sizes 2 to 4 and the enum macros of sizes 1 to 4. -/
theorem calls_defined_before_up_to_four :
    Style.standard.IsAccepted ∧ Reached .standard (.start .standard) ∧
      Selection.all.distinct = true ∧ 1 ≤ 2 ∧ 4 < sizeLimit ∧
      ∃ entries : List Entry,
        (entries.map fun e => (e.family, e.size)) =
          [(.distinct, 2), (.distinct, 3), (.distinct, 4), (.enum, 1), (.enum, 2), (.enum, 3),
            (.enum, 4)] ∧
        definitionLines (make (.start .standard) .classic .all ⟨1, 4⟩).text =
          entries.map (·.line.written) ∧
        ∀ before e after, entries = before ++ e :: after →
          ∃ d, e.CallsBack .standard before d := by
  have chosen : Selection.all.distinct = true := rfl
  have bottom : (⟨1, 4⟩ : Span).first ≤ 2 := by decide
  have small : (⟨1, 4⟩ : Span).last < sizeLimit := by decide
  obtain ⟨entries, keys, -, lines, calls⟩ :=
    calls_defined_before Style.isAccepted_standard .start .classic chosen bottom small
  refine ⟨Style.isAccepted_standard, .start, chosen, bottom, small, entries, ?_, lines, calls⟩
  rw [keys]
  decide

end Single

end EnumMacros
