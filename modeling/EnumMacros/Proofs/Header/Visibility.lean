import EnumMacros.Proofs.Header.Bounding
import EnumMacros.Proofs.Header.Tiling
import Mathlib.Logic.Relation

/-! Every header of a tree sees the macros it calls. The sizes that are looked up for the includes
of a header take in all that its definitions call; the check of such a size stands in an earlier
header, unless it stands in the header itself; and the header has a line that leads there. Includes
only go back to earlier headers, so they never lead in a circle. -/

namespace EnumMacros

open Preprocessor (symbols)

namespace Header

/-- The header defines the macro of a family and size. -/
def Defines (h : Header) (family : Family) (n : Nat) : Prop :=
  h.family = family ∧ ∃ line, (n, line) ∈ h.lines

/-- A definition in the header calls a macro. -/
def Calls (h : Header) (name : String) : Prop :=
  ∃ entry ∈ h.lines, Preprocessor.Calls (symbols entry.2.body) name

/-- The place in the tree that a path leads to from the directory of the header. -/
def leadsTo (output : TreeOutput) (h : Header) (path : String) : Place :=
  Layout.follow (Layout.directory h.family h.span output.groupLength) path

/-- The path by which one header includes another. -/
def wayTo (output : TreeOutput) (h g : Header) : String :=
  Layout.way (Layout.directory h.family h.span output.groupLength)
    (Layout.directory g.family g.span output.groupLength) ++ Layout.headerName g.family g.span

/-- One header names another on one of its lines. -/
def Includes (output : TreeOutput) (guardStyle : GuardStyle) (h g : Header) : Prop :=
  ∃ path ∈ includedPaths (h.text guardStyle), h.leadsTo output path = g.placeInTree output

end Header

namespace Tree

/-- One header of a tree includes another. -/
def Sees (output : TreeOutput) (guardStyle : GuardStyle) (headers : List Header) (h g : Header) :
    Prop :=
  h ∈ headers ∧ g ∈ headers ∧ h.Includes output guardStyle g

/-- The sizes of the checks that are called sooner or later when the macros of a header are expanded
by the definitions of a tree. -/
inductive Needs (style : Style) (headers : List Header) (h : Header) : Nat → Prop
  | called {m : Nat} : h.Calls (style.macroName .distinct m) → Needs style headers h m
  | through {m k : Nat} {g : Header} {line : Line} : Needs style headers h m → g ∈ headers →
      g.family = .distinct → (m, line) ∈ g.lines →
      Preprocessor.Calls (symbols line.body) (style.macroName .distinct k) →
      Needs style headers h k

/-! ### Sizes that are called -/

/-- The sizes of the checks that a macro can call. -/
def MayCall (family : Family) (n m : Nat) : Prop :=
  match family with
  | .distinct => leastCallee n ≤ m ∧ m ≤ greatestCallee n
  | .enum => m = n

/-- What a definition calls is foreseen. -/
theorem mayCall_of_calls {style : Style} {family : Family} {n : Nat} {line : Line}
    (h : style.Prints family n line) (small : n < sizeLimit) (accepted : style.IsAccepted)
    {name : String} (call : Preprocessor.Calls (symbols line.body) name) :
    name = assertWord ∨
      ∃ m, name = style.macroName .distinct m ∧ 2 ≤ m ∧ m ≤ n ∧ MayCall family n m := by
  cases family with
  | distinct =>
    obtain ⟨d, check, rfl⟩ := h.isCheck small
    apply (check.calls accepted call).imp_right
    rintro ⟨m, rfl, low, high, two, less⟩
    refine ⟨m, rfl, two, Nat.le_of_lt less, ?_, ?_⟩
    · rw [leastCallee]
      omega
    · rw [greatestCallee]
      omega
  | enum =>
    obtain ⟨d, declaration, declares, rfl⟩ := h.isDeclaration small
    apply (declares.calls accepted call).imp_right
    rintro ⟨several, rfl⟩
    exact ⟨n, rfl, several, Nat.le_refl n, rfl⟩

/-- The sizes looked up for a header take in those that its definitions can call. -/
theorem exists_called {family : Family} {span : Span} {n m : Nat} (inside : n ∈ span.sizes)
    (two : 2 ≤ m) (calls : MayCall family n m) :
    ∃ sizes, called? family span = some sizes ∧ m ∈ sizes.sizes := by
  rw [Span.mem_sizes] at inside
  cases family with
  | distinct =>
    refine ⟨_, called?_distinct (inside.1.trans inside.2), Span.mem_sizes.2 ?_⟩
    simp only [MayCall, leastCallee, greatestCallee] at calls ⊢
    omega
  | enum =>
    obtain rfl : m = n := calls
    refine ⟨⟨max span.first 2, span.last⟩, ?_, Span.mem_sizes.2 ?_⟩
    · rw [called?, Span.of?, if_pos]
      omega
    · show max span.first 2 ≤ m ∧ m ≤ span.last
      omega

theorem forward_of_called? {family : Family} {span sizes : Span}
    (h : called? family span = some sizes) : sizes.first ≤ sizes.last := by
  cases family <;>
  · rw [called?, Span.of?] at h
    split_ifs at h with forward
    obtain rfl := Option.some.inj h
    exact forward

/-! ### Paths that are included -/

theorem follow_indexOf {headers : List Header} (ordered : headers.Pairwise Header.Precedes)
    (forward : ∀ h ∈ headers, h.span.first ≤ h.span.last) :
    Span.Follow (indexOf headers).spans.toList := by
  have checks : ∀ h ∈ headers.filter (·.family = .distinct),
      h ∈ headers ∧ h.family = .distinct := by
    intro h member
    simpa only [List.mem_filter, decide_eq_true_eq] using member
  rw [indexOf, List.toList_toArray]
  refine ⟨List.forall_mem_map.2 fun h member => forward h (checks h member).1,
    List.pairwise_map.2 ?_⟩
  refine List.Pairwise.imp_of_mem ?_ (ordered.filter _)
  intro g g' _ right order
  rcases order with ⟨-, order⟩ | ⟨-, enum⟩
  · exact order
  · rw [(checks g' right).2] at enum
    exact absurd enum (by decide)

/-- A header includes by their paths the checks that share a size with those looked up. -/
theorem mem_includePaths {headers : List Header}
    (follow : Span.Follow (indexOf headers).spans.toList) {output : TreeOutput} {h : Header}
    {path : String} :
    path ∈ includePaths (indexOf headers) output.groupLength h.family h.span ↔
      ∃ sizes, called? h.family h.span = some sizes ∧ ∃ g ∈ headers, g.family = .distinct ∧
        (sizes.first ≤ g.span.last ∧ g.span.first ≤ sizes.last) ∧ path = h.wayTo output g := by
  rw [includePaths]
  cases found : called? h.family h.span with
  | none => simp
  | some sizes =>
    simp only [List.mem_map, HeaderIndex.mem_meeting follow (forward_of_called? found),
      Option.some.injEq, exists_eq_left']
    simp only [indexOf, List.mem_map, List.mem_filter, decide_eq_true_eq]
    constructor
    · rintro ⟨other, ⟨⟨g, ⟨member, check⟩, rfl⟩, meet⟩, rfl⟩
      exact ⟨g, member, check, meet, by rw [Header.wayTo, check]⟩
    · rintro ⟨g, member, check, meet, rfl⟩
      exact ⟨g.span, ⟨⟨g, ⟨member, check⟩, rfl⟩, meet⟩, by rw [Header.wayTo, check]⟩

end Tree

namespace Header

variable {output : TreeOutput}

/-- The way to a header leads to where it stands in the tree. -/
theorem leadsTo_wayTo (output : TreeOutput) (h g : Header) :
    h.leadsTo output (h.wayTo output g) = g.placeInTree output :=
  Layout.follow_way _ (fun _ => Layout.isPlain_of_mem_directory)
    (Layout.isPlain_headerName g.family g.span)

/-- On the disk it leads there too. -/
theorem placeFrom?_wayTo {d : Disk} {top : Place} (h : Header) {g : Header}
    (leads : d.resolve output.path = .ok top)
    (found : d.placeOf? (g.path output) = some (top ++ g.placeInTree output)) :
    d.placeFrom? (top ++ Layout.directory h.family h.span output.groupLength)
      (h.wayTo output g) = some (top ++ g.placeInTree output) := by
  obtain ⟨top', leads', down, -⟩ := Header.place_of_path found
  obtain rfl : top = top' := Except.ok.inj (leads.symm.trans leads')
  rw [wayTo, Layout.placeFrom?_way _ (fun _ => Layout.isPlain_of_mem_directory)
    (Layout.isPlain_headerName g.family g.span) down, List.append_assoc]
  rfl

theorem Follows.exists_line {style : Style} {groupLength : Nat} {before : List Header} {h : Header}
    (follows : h.Follows style groupLength before) {n : Nat} (inside : n ∈ h.span.sizes) :
    ∃ line, (n, line) ∈ h.lines := by
  rw [← follows.sizes] at inside
  obtain ⟨⟨n', line⟩, member, rfl⟩ := List.mem_map.1 inside
  exact ⟨line, member⟩

theorem Follows.mem_sizes {style : Style} {groupLength : Nat} {before : List Header} {h : Header}
    (follows : h.Follows style groupLength before) {n : Nat} {line : Line}
    (member : (n, line) ∈ h.lines) : n ∈ h.span.sizes := by
  rw [← follows.sizes]
  exact List.mem_map_of_mem member

/-- A header calls checks of sizes that its own sizes let expect. -/
theorem Follows.exists_mayCall {style : Style} {groupLength : Nat} {before : List Header}
    {h : Header} (follows : h.Follows style groupLength before) (accepted : style.IsAccepted)
    (refers : "n" ∈ style.distinctName.references) {m : Nat}
    (calls : h.Calls (style.macroName .distinct m)) :
    2 ≤ m ∧ ∃ n ∈ h.span.sizes, m ≤ n ∧ Tree.MayCall h.family n m := by
  obtain ⟨⟨n, line⟩, own, call⟩ := calls
  rcases Tree.mayCall_of_calls (follows.printed _ own) (follows.small own) accepted call with
    asserts | ⟨m', same, two, le, may⟩
  · exact absurd asserts (accepted.macroName_ne_assertWord refers m)
  · obtain rfl := accepted.macroName_injective .distinct refers same
    exact ⟨two, n, follows.mem_sizes own, le, may⟩

end Header

namespace Tree

variable {style : Style} {output : TreeOutput} {guardStyle : GuardStyle} {selection : Selection}
  {range : Request} {middle past : Nat} {checks enums earlier later : List Header} {g h : Header}
  {tree : Grown}
  (built : tree.Built style output.groupLength selection range checks enums middle past)

include built

/-! ### Sizes that are there -/

theorem Grown.Built.family_of_mem_checks (member : g ∈ checks) :
    g ∈ headers tree.steps ∧ g.family = .distinct := by
  rw [built.joined]
  exact ⟨List.mem_append_left _ member, built.add_checks.grows.family_eq g member⟩

/-- Where there are checks, they go as far as the enum macros. -/
theorem Grown.Built.last_lt (chosen : selection.distinct = true)
    (member : h ∈ headers tree.steps) : h.span.last < middle := by
  rw [built.joined, List.mem_append] at member
  rcases member with check | enum
  · exact (built.add_checks.grows.bounds check).2
  · have := (built.add_enums.grows.bounds enum).2
    have := built.called chosen
    omega

/-- The check of every size from the least on stands in the tree. -/
theorem Grown.Built.exists_check {m : Nat} (least : max range.first 2 ≤ m) (before : m < middle) :
    ∃ g ∈ headers tree.steps, g.Defines .distinct m := by
  obtain ⟨g, check, inside⟩ := built.add_checks.grows.exists_header least before
  obtain ⟨member, family⟩ := built.family_of_mem_checks check
  obtain ⟨before, follows⟩ := built.exists_follows member
  exact ⟨g, member, family, follows.exists_line inside⟩

/-- A macro is defined in one header of a tree. -/
theorem Grown.Built.eq_of_defines (left : g ∈ headers tree.steps) (right : h ∈ headers tree.steps)
    {family : Family} {n : Nat} (defines : g.Defines family n) (defines' : h.Defines family n) :
    g = h := by
  have apart : (headers tree.steps).Pairwise fun g h =>
      ¬(g.Defines family n ∧ h.Defines family n) := by
    refine List.Pairwise.imp_of_mem ?_ built.ordered
    rintro g h left right order ⟨⟨same, line, own⟩, same', line', own'⟩
    obtain ⟨before, follows⟩ := built.exists_follows left
    obtain ⟨before', follows'⟩ := built.exists_follows right
    have inside := Span.mem_sizes.1 (follows.mem_sizes own)
    have inside' := Span.mem_sizes.1 (follows'.mem_sizes own')
    rcases order with ⟨-, order⟩ | ⟨check, enum⟩
    · omega
    · rw [same] at check
      rw [same', check] at enum
      exact absurd enum (by decide)
  have symmetric : Std.Symm fun g h : Header => ¬(g.Defines family n ∧ h.Defines family n) :=
    ⟨fun _ _ other both => other both.symm⟩
  by_contra different
  exact apart.forall left right different ⟨defines, defines'⟩

/-! ### Headers that are included -/

theorem Grown.Built.follow_indexOf (place : headers tree.steps = earlier ++ h :: later) :
    Span.Follow (indexOf earlier).spans.toList := by
  have ordered := built.ordered
  rw [place, List.pairwise_append] at ordered
  apply Tree.follow_indexOf ordered.1
  intro g member
  have inside : g ∈ headers tree.steps := by
    rw [place]
    exact List.mem_append_left _ member
  obtain ⟨before, follows⟩ := built.exists_follows inside
  exact follows.forward

/-- Every path that a header includes is the way to an earlier header. -/
theorem Grown.Built.exists_included
    (accepted : style.IsAccepted) (place : headers tree.steps = earlier ++ h :: later)
    {path : String} (member : path ∈ includedPaths (h.text guardStyle)) :
    ∃ g ∈ earlier, path = h.wayTo output g := by
  have follows := built.follows place
  rw [follows.includedPaths_text accepted, follows.included,
    mem_includePaths (built.follow_indexOf place)] at member
  obtain ⟨sizes, -, g, before, -, -, same⟩ := member
  exact ⟨g, before, same⟩

/-- A header includes each earlier check that it looks up. -/
theorem Grown.Built.includes
    (accepted : style.IsAccepted) (place : headers tree.steps = earlier ++ h :: later)
    {sizes : Span} (called : called? h.family h.span = some sizes) (before : g ∈ earlier)
    (check : g.family = .distinct) {m : Nat} (wanted : m ∈ sizes.sizes)
    (there : m ∈ g.span.sizes) : h.Includes output guardStyle g := by
  have follows := built.follows place
  have looked := Span.mem_sizes.1 wanted
  have held := Span.mem_sizes.1 there
  refine ⟨h.wayTo output g, ?_, ?_⟩
  · rw [follows.includedPaths_text accepted, follows.included,
      mem_includePaths (built.follow_indexOf place)]
    exact ⟨sizes, called, g, before, check, by omega, rfl⟩
  · exact Header.leadsTo_wayTo output h g

/-- What a definition calls is defined in its own header or in one that this includes. -/
theorem Grown.Built.exists_defines
    (accepted : style.IsAccepted) (refers : "n" ∈ style.distinctName.references)
    (chosen : selection.distinct = true) (member : h ∈ headers tree.steps) {m : Nat}
    (calls : h.Calls (style.macroName .distinct m)) (least : range.first ≤ m) :
    ∃ g ∈ headers tree.steps,
      (g = h ∨ h.Includes output guardStyle g) ∧ g.Defines .distinct m := by
  obtain ⟨earlier, later, place⟩ := List.append_of_mem member
  have follows := built.follows place
  obtain ⟨two, n, inside, le, may⟩ := follows.exists_mayCall accepted refers calls
  have bounds := Span.mem_sizes.1 inside
  have within := built.last_lt chosen member
  obtain ⟨g, found, defines⟩ := built.exists_check (Nat.max_le.2 ⟨least, two⟩) (by omega)
  refine ⟨g, found, ?_, defines⟩
  obtain ⟨check, line, own⟩ := defines
  obtain ⟨before, follows'⟩ := built.exists_follows found
  have there := follows'.mem_sizes own
  have held := Span.mem_sizes.1 there
  have ordered := built.ordered
  rw [place] at found ordered
  rcases List.mem_append.1 found with before | rest
  · obtain ⟨sizes, called, wanted⟩ := exists_called inside two may
    exact .inr (built.includes accepted place called before check wanted there)
  · rcases List.mem_cons.1 rest with same | after
    · exact .inl same
    · -- A later check holds larger sizes than the header calls.
      have order := (List.pairwise_cons.1 (List.pairwise_append.1 ordered).2.1).1 g after
      rcases order with ⟨-, order⟩ | ⟨-, enum⟩
      · omega
      · rw [check] at enum
        exact absurd enum (by decide)

/-- A header includes earlier headers only. -/
theorem Grown.Built.mem_earlier
    (accepted : style.IsAccepted) (place : headers tree.steps = earlier ++ h :: later)
    (member : g ∈ headers tree.steps) (includes : h.Includes output guardStyle g) :
    g ∈ earlier := by
  obtain ⟨path, included, leads⟩ := includes
  obtain ⟨g', before, rfl⟩ := built.exists_included accepted place included
  rw [Header.leadsTo_wayTo] at leads
  have inside : g' ∈ headers tree.steps := by
    rw [place]
    exact List.mem_append_left _ before
  have places : ((headers tree.steps).map (·.placeInTree output)).Nodup := built.nodup_places
  rwa [← List.inj_on_of_nodup_map places inside member leads]

theorem Grown.Built.number_lt
    (accepted : style.IsAccepted) (sees : Sees output guardStyle (headers tree.steps) h g) :
    g.number < h.number := by
  obtain ⟨member, inside, includes⟩ := sees
  obtain ⟨earlier, later, place⟩ := List.append_of_mem member
  have before := built.mem_earlier accepted place inside includes
  obtain ⟨first, rest, rfl⟩ := List.append_of_mem before
  have place' : headers tree.steps = first ++ g :: (rest ++ h :: later) := by
    rw [place, List.append_assoc]
    rfl
  rw [(built.follows place).number, (built.follows place').number, List.length_append,
    List.length_cons]
  omega

/-- The check that an enum macro calls stands in the tree. -/
theorem Grown.Built.exists_check_of_enum
    (chosen : selection.distinct = true) (member : h ∈ headers tree.steps) {n : Nat}
    (several : 2 ≤ n) (defines : h.Defines .enum n) :
    ∃ g ∈ headers tree.steps, g.Defines .distinct n := by
  obtain ⟨family, line, own⟩ := defines
  obtain ⟨before, follows⟩ := built.exists_follows member
  have inside := Span.mem_sizes.1 (follows.mem_sizes own)
  have within := built.last_lt chosen member
  have starts : range.first ≤ h.span.first := by
    rw [built.joined, List.mem_append] at member
    rcases member with check | enum
    · rw [(built.family_of_mem_checks check).2] at family
      exact absurd family (by decide)
    · exact (Nat.le_max_left _ _).trans (built.add_enums.grows.bounds enum).1
  exact built.exists_check (by omega) (by omega)

theorem Grown.Built.exists_check_of_bounded (chosen : selection.distinct = true) {last : Nat}
    (ends : range.last = some last) (small : last + 1 < sizeLimit) {m : Nat}
    (least : max 2 range.first ≤ m) (most : m ≤ last) :
    ∃ g ∈ headers tree.steps, g.Defines .distinct m := by
  have whole := built.add_checks.complete last ends small chosen
  exact built.exists_check (by omega) (by omega)

/-- Headers do not include each other in a circle. -/
theorem Grown.Built.acyclic (accepted : style.IsAccepted) (h : Header) :
    ¬Relation.TransGen (Sees output guardStyle (headers tree.steps)) h h := by
  have less {g h : Header} (reach : Relation.TransGen (Sees output guardStyle (headers tree.steps))
      h g) : g.number < h.number := by
    induction reach with
    | single sees => exact built.number_lt accepted sees
    | tail _ sees ih => exact (built.number_lt accepted sees).trans ih
  exact fun circle => Nat.lt_irrefl _ (less circle)

/-- From size 2 on whatever is called sooner or later is defined in a header that is reached by
includes. -/
theorem Grown.Built.exists_reached
    (accepted : style.IsAccepted) (refers : "n" ∈ style.distinctName.references)
    (chosen : selection.distinct = true) (starts : range.first ≤ 2)
    (member : h ∈ headers tree.steps) {m : Nat} (needs : Needs style (headers tree.steps) h m) :
    ∃ g, Relation.ReflTransGen (Sees output guardStyle (headers tree.steps)) h g ∧
      g.Defines .distinct m := by
  have next {f : Header} {m : Nat}
      (reach : Relation.ReflTransGen (Sees output guardStyle (headers tree.steps)) h f)
      (inside : f ∈ headers tree.steps) (calls : f.Calls (style.macroName .distinct m)) :
      ∃ g, (Relation.ReflTransGen (Sees output guardStyle (headers tree.steps)) h g ∧
        g ∈ headers tree.steps) ∧ g.Defines .distinct m := by
    obtain ⟨before, follows⟩ := built.exists_follows inside
    have two := (follows.exists_mayCall accepted refers calls).1
    obtain ⟨g, found, own | includes, defines⟩ :=
      built.exists_defines accepted refers chosen inside calls (by omega)
    · exact ⟨f, ⟨reach, inside⟩, own ▸ defines⟩
    · exact ⟨g, ⟨reach.tail ⟨inside, found, includes⟩, found⟩, defines⟩
  obtain ⟨g, ⟨reach, -⟩, defines⟩ : ∃ g,
      (Relation.ReflTransGen (Sees output guardStyle (headers tree.steps)) h g ∧
        g ∈ headers tree.steps) ∧ g.Defines .distinct m := by
    induction needs with
    | called calls => exact next .refl member calls
    | @through m k g line _ inside check own calls ih =>
      obtain ⟨g', ⟨reach, inside'⟩, defines⟩ := ih
      obtain rfl : g' = g := built.eq_of_defines inside' inside defines ⟨check, line, own⟩
      exact next reach inside ⟨_, own, calls⟩
  exact ⟨g, reach, defines⟩

end Tree

theorem Selection.isEmpty_of_completed {s : Selection} {dependencies : Dependencies}
    (chosen : (s.completed dependencies).distinct = true) : s.isEmpty = false := by
  rw [isEmpty]
  cases dependencies with
  | added =>
    obtain distinct | enum := Bool.or_eq_true_iff.1 chosen
    · rw [distinct]
      rfl
    · rw [enum]
      exact Bool.and_false _
  | omitted =>
    rw [show s.distinct = true from chosen]
    rfl

namespace Job

/-- In a tree with checks no header lacks what it calls. Definitions call nothing but assertions and
checks. A check that is called, if the tree is asked for its size, stands in the same header or in
one that the header includes; every included path leads to an earlier header, also on the disk; and
from size 2 on the included headers have all that is called sooner or later. In a bounded range no
check is missing. -/
theorem tree_sees_calls (job : Job) (output : TreeOutput) (accepted : job.style.IsAccepted)
    (refers : "n" ∈ job.style.distinctName.references) (chosen : job.selected.distinct = true)
    (tree : job.output = .tree output) :
    ∃ (plan : Plan) (headers : List Header),
      job.plan = .ok plan ∧
      Plan.writes plan.actions =
        headers.map (fun h => (h.path output, h.text job.guardStyle)) ∧
      (headers.map (·.path output)).Nodup ∧
      (∀ h ∈ headers, h.lines.map Prod.fst = h.span.sizes ∧
        ∀ entry ∈ h.lines, job.style.Prints h.family entry.1 entry.2) ∧
      (∀ h ∈ headers, ∀ name, h.Calls name →
        name = assertWord ∨ ∃ m, 2 ≤ m ∧ name = job.style.macroName .distinct m) ∧
      (∀ h ∈ headers, ∀ m, h.Calls (job.style.macroName .distinct m) →
        max 2 job.range.first ≤ m →
        ∃ g ∈ headers, (g = h ∨ h.Includes output job.guardStyle g) ∧ g.Defines .distinct m) ∧
      (∀ earlier h later, headers = earlier ++ h :: later →
        ∀ path ∈ includedPaths (h.text job.guardStyle),
          ∃ g ∈ earlier, h.leadsTo output path = g.placeInTree output ∧
            Path.joinAll output.path (h.leadsTo output path) = g.path output) ∧
      (∀ h, ¬Relation.TransGen (Tree.Sees output job.guardStyle headers) h h) ∧
      (∀ h ∈ headers, ∀ n, 2 ≤ n → h.Defines .enum n → ∃ g ∈ headers, g.Defines .distinct n) ∧
      (∀ last, job.range.last = some last → last + 1 < sizeLimit →
        ∀ m, max 2 job.range.first ≤ m → m ≤ last → ∃ g ∈ headers, g.Defines .distinct m) ∧
      (job.range.first ≤ 2 → ∀ h ∈ headers, ∀ m, Tree.Needs job.style headers h m →
        ∃ g, Relation.ReflTransGen (Tree.Sees output job.guardStyle headers) h g ∧
          g.Defines .distinct m) ∧
      ∀ disk : Disk, (∀ fault, (plan.run disk).result ≠ .failed fault) →
        ∃ top : Place, ∀ h ∈ headers,
          (plan.run disk).disk.file? (top ++ h.placeInTree output) =
            some (h.text job.guardStyle) ∧
          ∀ path ∈ includedPaths (h.text job.guardStyle),
            (plan.run disk).disk.placeFrom?
              (top ++ Layout.directory h.family h.span output.groupLength) path =
                some (top ++ h.leadsTo output path) := by
  obtain ⟨checks, enums, middle, past, built⟩ :=
    Tree.exists_built output job.guardStyle job.selected job.range job.style
  have planned := plan_tree (Selection.isEmpty_of_completed chosen) tree
  rw [Tree.plan] at planned
  generalize Tree.grown output job.guardStyle job.selected job.range (.start job.style) = grown
    at built planned
  have places : ((Tree.headers grown.steps).map (·.placeInTree output)).Nodup := built.nodup_places
  refine ⟨_, Tree.headers grown.steps, planned, Tree.writes_actions [] grown.steps, ?_,
    fun h member => ?_, fun h member name calls => ?_, fun h member m calls least => ?_,
    fun earlier h later place path included => ?_, built.acyclic accepted,
    fun h member n several defines => built.exists_check_of_enum chosen member several defines,
    fun last ends small m least most => built.exists_check_of_bounded chosen ends small least most,
    fun starts h member m needs => built.exists_reached accepted refers chosen starts member needs,
    fun disk fine => ?_⟩
  · exact built.nodup_paths
  · obtain ⟨before, follows⟩ := built.exists_follows member
    exact ⟨follows.sizes, follows.printed⟩
  · obtain ⟨before, follows⟩ := built.exists_follows member
    obtain ⟨⟨n, line⟩, own, call⟩ := calls
    have foreseen :=
      Tree.mayCall_of_calls (follows.printed _ own) (follows.small own) accepted call
    apply foreseen.imp_right
    rintro ⟨m, same, two, -, -⟩
    exact ⟨m, two, same⟩
  · exact built.exists_defines accepted refers chosen member calls
      ((Nat.le_max_right _ _).trans least)
  · obtain ⟨g, before, rfl⟩ := built.exists_included accepted place included
    rw [Header.leadsTo_wayTo]
    exact ⟨g, before, rfl, (Header.path_eq output g).symm⟩
  · obtain ⟨-, keeps⟩ := Plan.keeps_performAll _ _ fine
    rw [Tree.writes_actions] at keeps
    obtain ⟨top, leads, there, -⟩ := keeps.headers places
    refine ⟨top, fun h member => ⟨(there h member).2, fun path included => ?_⟩⟩
    obtain ⟨earlier, later, place⟩ := List.append_of_mem member
    obtain ⟨g, before, rfl⟩ := built.exists_included accepted place included
    have inside : g ∈ Tree.headers grown.steps := by
      rw [place]
      exact List.mem_append_left _ before
    rw [Header.leadsTo_wayTo]
    exact Header.placeFrom?_wayTo h (leads (List.ne_nil_of_mem inside)) (there g inside).1

/-- In an open range that a small cap ends at size 4, whatever an enum macro comes to call stands in
headers that are reached from its own, and every include can be followed on a blank disk. -/
theorem tree_sees_calls_of_open :
    ∃ (plan : Plan) (headers : List Header) (top : Place),
      Job.plan ⟨⟨1, none⟩, ⟨false, true⟩, .added, .classic, .standard,
        .tree ⟨"out", 150, 2⟩, none⟩ = .ok plan ∧
      (plan.run Disk.blank).result =
        .finished
          ⟨some ⟨2, 4⟩, some ⟨1, 4⟩,
            ["out/areuniq/areuniq2-3.h", "out/areuniq/areuniq4.h", "out/uniqenum/uniqenum1.h",
              "out/uniqenum/uniqenum2.h", "out/uniqenum/uniqenum3.h",
              "out/uniqenum/uniqenum4.h"]⟩ ∧
      (∀ h ∈ headers, ∀ m, Tree.Needs .standard headers h m →
        ∃ g, Relation.ReflTransGen (Tree.Sees ⟨"out", 150, 2⟩ .classic headers) h g ∧
          g.Defines .distinct m) ∧
      ∀ h ∈ headers,
        (plan.run Disk.blank).disk.file? (top ++ h.placeInTree ⟨"out", 150, 2⟩) =
          some (h.text .classic) ∧
        ∀ path ∈ includedPaths (h.text .classic),
          (plan.run Disk.blank).disk.placeFrom? (top ++ Layout.directory h.family h.span 2) path =
            some (top ++ h.leadsTo ⟨"out", 150, 2⟩ path) := by
  obtain ⟨plan, headers, planned, -, -, -, -, -, -, -, -, -, reached, runs⟩ :=
    tree_sees_calls
      ⟨⟨1, none⟩, ⟨false, true⟩, .added, .classic, .standard, .tree ⟨"out", 150, 2⟩, none⟩
      ⟨"out", 150, 2⟩ Style.isAccepted_standard (by decide) rfl rfl
  have ran : (Job.plan ⟨⟨1, none⟩, ⟨false, true⟩, .added, .classic, .standard,
      .tree ⟨"out", 150, 2⟩, none⟩).toOption.map (fun plan => (plan.run Disk.blank).result) =
        some (.finished
          ⟨some ⟨2, 4⟩, some ⟨1, 4⟩,
            ["out/areuniq/areuniq2-3.h", "out/areuniq/areuniq4.h", "out/uniqenum/uniqenum1.h",
              "out/uniqenum/uniqenum2.h", "out/uniqenum/uniqenum3.h",
              "out/uniqenum/uniqenum4.h"]⟩) := by decide +kernel
  rw [planned] at ran
  have finished := Option.some.inj ran
  obtain ⟨top, there⟩ := runs .blank fun fault failed => nomatch finished.symm.trans failed
  exact ⟨plan, headers, top, planned, finished, reached (by decide), there⟩

end Job

end EnumMacros
