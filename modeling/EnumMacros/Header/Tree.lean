import EnumMacros.Header.Layout
import EnumMacros.Header.Lines
import EnumMacros.Plan
import EnumMacros.Size.Index

/-! A tree of headers. The macros of a family are packed into headers in order of size: a header
takes on sizes as long as its text stays within the cap. Each header includes the headers of the
checks that its macros call, so that it can be read on its own. A macro too large for the cap ends
an open range, and gets a header of its own in a bounded one. -/

namespace EnumMacros

/-- A header of a tree: its family and sizes, its number in the tree, the paths of the headers it
includes, and its definition lines. -/
structure Header where
  family : Family
  span : Span
  number : Nat
  included : List String
  lines : List (Nat × Line)
  deriving Repr, DecidableEq

namespace Header

def includeBlock (paths : List String) : String :=
  String.join (paths.map fun path => "#include \"" ++ path ++ "\"\n")

def text (guardStyle : GuardStyle) (h : Header) : String :=
  guardStyle.opening (GuardStyle.tag h.number) ++ includeBlock h.included ++
    Printed.text h.lines ++ guardStyle.closing

def directory (output : TreeOutput) (h : Header) : String :=
  Path.joinAll output.path (Layout.directory h.family h.span output.groupLength)

def path (output : TreeOutput) (h : Header) : String :=
  Path.join (h.directory output) (Layout.headerName h.family h.span)

end Header

/-- The last size of a header, from its first size and the number of its macros. The sum of these is
computed first, and it has to be a size. -/
def headerEnd? (first count : Nat) : Option Nat := (withinSizes? (first + count)).map (· - 1)

theorem headerEnd?_eq_some_iff {first count last : Nat} :
    headerEnd? first count = some last ↔ first + count < sizeLimit ∧ first + count - 1 = last := by
  rw [headerEnd?, Option.map_eq_some_iff]
  simp only [withinSizes?_eq_some_iff, and_assoc, exists_and_left, exists_eq_left']

/-- The size after a header that is not empty. -/
theorem next_of_headerEnd? {first count last : Nat} (found : headerEnd? first count = some last)
    (nonempty : 0 < count) : last + 1 = first + count ∧ last + 1 < sizeLimit := by
  obtain ⟨small, rfl⟩ := headerEnd?_eq_some_iff.1 found
  omega

theorem headerEnd?_eq_none_iff {first count : Nat} :
    headerEnd? first count = none ↔ sizeLimit ≤ first + count := by
  rw [headerEnd?, Option.map_eq_none_iff, withinSizes?_eq_none_iff]

namespace Tree

/-- Two thirds of a size rounded down, and at least two: the smallest check that a check of this
size calls. -/
def leastCallee (n : Nat) : Nat := max (2 * n / 3) 2

/-- Two thirds of a size rounded up, and at least two: the largest check that a check of this size
calls. -/
def greatestCallee (n : Nat) : Nat := max ((2 * n + 2) / 3) 2

/-- The sizes of the checks that the macros of a header call. -/
def called? (family : Family) (span : Span) : Option Span :=
  match family with
  | .distinct => Span.of? (leastCallee span.first) (greatestCallee span.last)
  | .enum => Span.of? (max span.first 2) span.last

/-- The paths by which a header includes those that define what it calls. -/
def includePaths (index : HeaderIndex) (groupLength : Nat) (family : Family) (span : Span) :
    List String :=
  match called? family span with
  | none => []
  | some sizes =>
    let source := Layout.directory family span groupLength
    (index.meeting sizes).map fun other =>
      Layout.way source (Layout.directory .distinct other groupLength) ++
        Layout.headerName .distinct other

/-- How far a tree has grown: the composer, the sizes of the headers with checks, and the number of
all headers. -/
structure State where
  composer : Composer
  index : HeaderIndex
  count : Nat
  deriving Repr, DecidableEq

/-- The state after a header. -/
def State.add (s : State) (family : Family) (span : Span) (after : Composer) : State :=
  { composer := after
    index := match family with
      | .distinct => s.index.push span
      | .enum => s.index
    count := s.count + 1 }

/-- The header with the given lines that comes next. -/
def State.header (s : State) (output : TreeOutput) (family : Family) (span : Span)
    (lines : List (Nat × Line)) : Header :=
  { family, span, number := s.count, lines
    included := includePaths s.index output.groupLength family span }

/-- The bytes of the next header that are no definitions, when it holds the given sizes. -/
def State.frame (s : State) (output : TreeOutput) (guardStyle : GuardStyle) (family : Family)
    (span : Span) : Nat :=
  guardStyle.size s.count +
    (Header.includeBlock (includePaths s.index output.groupLength family span)).utf8ByteSize

/-- Fills the next header from size `n` on, when the sizes from `first` before it take up the given
bytes. -/
def fillFrom (frame : Span → Nat) (cap : Nat) (family : Family) (range : Request) (c : Composer)
    (first n bytes : Nat) : Printed :=
  if range.reaches n then
    match c.defineLine family n with
    | (none, after) => ⟨[], c.discovered after, after⟩
    | (some line, after) =>
      if cap < frame ⟨first, n⟩ + bytes + line.size then ⟨[], c.discovered after, after⟩
      else if n + 1 < sizeLimit then
        let rest := fillFrom frame cap family range after first (n + 1) (bytes + line.size)
        { rest with
          lines := (n, line) :: rest.lines
          events := c.discovered after ++ rest.events }
      else ⟨[(n, line)], c.discovered after, after⟩
  else ⟨[], [], c⟩
termination_by sizeLimit - n

/-- The longest run of sizes from `first` on that fits into the next header. -/
def fill (output : TreeOutput) (guardStyle : GuardStyle) (s : State) (family : Family)
    (range : Request) (first : Nat) : Printed :=
  fillFrom (s.frame output guardStyle family) output.sizeCap family range s.composer first first 0

/-- Something that happens while a tree grows. -/
inductive Step
  | report (event : Event)
  | write (header : Header)
  deriving Repr, DecidableEq

def headers (steps : List Step) : List Header :=
  steps.filterMap fun
    | .write header => some header
    | .report _ => none

/-- The sizes from the first header to the last. -/
def written? (steps : List Step) : Option Span :=
  match (headers steps).head?, (headers steps).getLast? with
  | some first, some last => some ⟨first.span.first, last.span.last⟩
  | _, _ => none

/-- The growth of a tree by one family: the steps, the state afterwards, and whether all has gone
well, which it has not when the sizes were exhausted. -/
structure Growth where
  steps : List Step
  state : State
  completed : Bool
  deriving Repr, DecidableEq

def reports (events : List Event) : List Step := events.map .report

/-- The lines for the header that starts at size `first`: as many as fit, or in a bounded range at
least one. -/
def nextLines (output : TreeOutput) (guardStyle : GuardStyle) (s : State) (family : Family)
    (range : Request) (first : Nat) : Printed :=
  let filled := fill output guardStyle s family range first
  match filled.lines with
  | _ :: _ => filled
  | [] =>
    if range.hasEnd then
      let (line, after) := filled.composer.defineLine family first
      { lines := (line.map (first, ·)).toList
        events := filled.events ++ [.writingAlone family first output.sizeCap] ++
          filled.composer.discovered after
        composer := after }
    else { filled with events := filled.events ++ [.stopping family first output.sizeCap] }

/-- Writes the headers of a family from size `first` on. -/
def growFrom (output : TreeOutput) (guardStyle : GuardStyle) (family : Family) (range : Request)
    (s : State) (first : Nat) : Growth :=
  if range.reaches first then
    let next := nextLines output guardStyle s family range first
    if next.lines.isEmpty then
      ⟨reports next.events, { s with composer := next.composer }, true⟩
    else
      match _found : headerEnd? first next.lines.length with
      | some last =>
        let span : Span := ⟨first, last⟩
        let rest :=
          growFrom output guardStyle family range (s.add family span next.composer) (last + 1)
        { rest with
          steps := reports next.events ++
            .write (s.header output family span next.lines) :: rest.steps }
      | none => ⟨reports next.events, { s with composer := next.composer }, false⟩
  else ⟨[], s, true⟩
termination_by sizeLimit - first
decreasing_by
  have nonempty : next.lines ≠ [] := by simpa using ‹¬next.lines.isEmpty = true›
  have longer := List.length_pos_iff.2 nonempty
  obtain ⟨small, ends⟩ := headerEnd?_eq_some_iff.1 _found
  omega

/-- Writes the headers of a family, and reports the family as done if there are any. -/
def grow (output : TreeOutput) (guardStyle : GuardStyle) (family : Family) (range : Request)
    (s : State) : Growth :=
  let growth := growFrom output guardStyle family range s range.first
  let done := if growth.completed then (written? growth.steps).toList else []
  { growth with steps := growth.steps ++ reports (done.map (.generated .tree family ·)) }

/-- What a step of a tree does: a header is written into its directory, which is made first unless
that has been done. -/
def stepActions (output : TreeOutput) (guardStyle : GuardStyle) (made : List String) :
    Step → List Action
  | .report event => [.report event]
  | .write header =>
    let text := header.text guardStyle
    let path := header.path output
    (if made.contains (header.directory output) then []
      else [.makeDirectories (header.directory output)]) ++
    (Printed.writing .tree header.family header.lines).map .report ++
    [.writeFile path text, .report (.wroteHeader path text.utf8ByteSize)]

/-- What the steps of a tree do, when some directories have been made before. -/
def actions (output : TreeOutput) (guardStyle : GuardStyle) (made : List String) :
    List Step → List Action
  | [] => []
  | step :: steps =>
    let now := match step with
      | .report _ => made
      | .write header => header.directory output :: made
    stepActions output guardStyle made step ++ actions output guardStyle now steps

/-- A grown tree: its steps, what was written of each family, the state afterwards, and whether all
went well. -/
structure Grown where
  steps : List Step
  distinct : Option Span
  enum : Option Span
  state : State
  completed : Bool
  deriving Repr, DecidableEq

/-- Grows the part of the tree with the checks, as far as the request reaches into their sizes. -/
def growDistinct (output : TreeOutput) (guardStyle : GuardStyle) (selection : Selection)
    (range : Request) (s : State) : Option Growth :=
  if selection.distinct then
    (range.from? Family.distinct.least).map fun part => grow output guardStyle .distinct part s
  else none

/-- The request for enum macros once the checks are written: they go no further than the checks, so
that every check they call is there. -/
def enumRange (range : Request) : Option Growth → Request
  | none => range
  | some growth =>
    let last := match written? growth.steps with
      | some span => span.last
      | none => max range.first Family.distinct.least - 1
    { range with last := some last }

/-- Goes on from the checks to the enum macros, as far as the request reaches into their sizes. -/
def withEnums (output : TreeOutput) (guardStyle : GuardStyle) (selection : Selection)
    (range : Request) (steps : List Step) (s : State) : Grown :=
  match if selection.enum then range.from? Family.enum.least else none with
  | none => ⟨steps, written? steps, none, s, true⟩
  | some part =>
    let enums := grow output guardStyle .enum part s
    ⟨steps ++ enums.steps, written? steps, written? enums.steps, enums.state, enums.completed⟩

/-- Grows a tree: the checks first, then the enum macros unless the sizes were exhausted. -/
def grown (output : TreeOutput) (guardStyle : GuardStyle) (selection : Selection)
    (range : Request) (c : Composer) : Grown :=
  let checks := growDistinct output guardStyle selection range ⟨c, .empty, 0⟩
  let steps := (checks.map (·.steps)).getD []
  let s := (checks.map (·.state)).getD ⟨c, .empty, 0⟩
  if (checks.map (·.completed)).getD true then
    withEnums output guardStyle selection (enumRange range checks) steps s
  else ⟨steps, written? steps, none, s, false⟩

/-- What a tree's growth comes to: its headers are the files of the summary. -/
def plan (output : TreeOutput) (guardStyle : GuardStyle) (selection : Selection)
    (range : Request) (c : Composer) : Plan :=
  let tree := grown output guardStyle selection range c
  { actions := actions output guardStyle [] tree.steps
    ending :=
      if tree.completed then
        .finished
          { distinct := tree.distinct, enum := tree.enum
            files := (headers tree.steps).map (·.path output) }
      else .sizesExhausted }

end Tree

end EnumMacros
