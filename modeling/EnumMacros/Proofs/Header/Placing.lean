import EnumMacros.Header.Tree
import EnumMacros.Proofs.Files.Writing
import EnumMacros.Proofs.Text.Decimal
import Mathlib.Data.List.Induction

/-! Where the headers of a tree stand. Directories and files have plain names, so a header's path
leads to the same place from wherever the tree is; headers that differ in family or in their first
size have files of different names; and the way from one directory of a tree to another ends there.
-/

namespace EnumMacros

/-! ### Plain names -/

/-- A character as it occurs in the names of directories and headers. -/
def Path.IsTame (c : Char) : Prop := c.isAlphanum = true ∨ c = '-' ∨ c = '.'

instance (c : Char) : Decidable (Path.IsTame c) := inferInstanceAs (Decidable (_ ∨ _))

theorem Path.isTame_of_isDigit {c : Char} (h : c.isDigit = true) : Path.IsTame c := by
  refine .inl ?_
  rw [Char.isAlphanum, h, Bool.or_true]

theorem Path.isPlain_of_isTame {name : String} {c : Char} (tame : ∀ c ∈ name.toList, IsTame c)
    (inside : c ∈ name.toList) (other : c ≠ '.') : IsPlain name := by
  refine ⟨fun slash => absurd (tame _ slash) (by decide), ?_, ?_, ?_⟩
  · rintro rfl
    exact absurd inside List.not_mem_nil
  · rintro rfl
    exact other (List.mem_singleton.1 inside)
  · rintro rfl
    simp [other] at inside

theorem Text.digit_ne_dot {c : Char} (h : c.isDigit = true) : c ≠ '.' := by
  rintro rfl
  exact absurd h (by decide)

namespace Layout

theorem isTame_word (family : Family) : ∀ c ∈ family.word.toList, Path.IsTame c := by
  have letters : (family.word.toList.all fun c => decide (Path.IsTame c)) = true := by
    cases family <;> decide
  exact fun c member => of_decide_eq_true (List.all_eq_true.1 letters c member)

theorem isPlain_word (family : Family) : Path.IsPlain family.word := by
  cases family
  · exact ⟨by decide, by decide, by decide, by decide⟩
  · exact ⟨by decide, by decide, by decide, by decide⟩

theorem sharedStart_starts {α : Type} [BEq α] (xs ys : List α) : sharedStart xs ys <+: xs := by
  fun_induction sharedStart xs ys with
  | case1 x xs y ys same ih => exact List.cons_prefix_cons.2 ⟨rfl, ih⟩
  | case2 => exact List.nil_prefix
  | case3 => exact List.nil_prefix

theorem sharedStart_starts_right {α : Type} [BEq α] [LawfulBEq α] (xs ys : List α) :
    sharedStart xs ys <+: ys := by
  fun_induction sharedStart xs ys with
  | case1 x xs y ys same ih => exact List.cons_prefix_cons.2 ⟨eq_of_beq same, ih⟩
  | case2 => exact List.nil_prefix
  | case3 => exact List.nil_prefix

/-- Both ends of a span begin with the digits by which the header is nested. -/
theorem nestingDigits_starts (span : Span) :
    nestingDigits span <+: Nat.toDigits 10 span.first ∧
      nestingDigits span <+: Nat.toDigits 10 span.last := by
  rw [nestingDigits]
  split_ifs with single
  · have ends : span.first = span.last := eq_of_beq single
    rw [← ends]
    exact ⟨List.dropLast_prefix _, List.dropLast_prefix _⟩
  · exact ⟨sharedStart_starts _ _, sharedStart_starts_right _ _⟩

theorem isDigit_of_mem_nestingDigits {span : Span} {c : Char} (h : c ∈ nestingDigits span) :
    c.isDigit = true :=
  Nat.isDigit_of_mem_toDigits (by decide) (by decide) ((nestingDigits_starts span).1.subset h)

theorem mem_groups {length : Nat} {xs group : List Char} (h : group ∈ groups length xs) :
    group ≠ [] ∧ group ⊆ xs := by
  fun_induction groups length xs with
  | case1 => exact absurd h List.not_mem_nil
  | case2 xs more ih =>
    rw [not_or] at more
    rcases List.mem_cons.1 h with rfl | later
    · refine ⟨?_, List.take_subset _ _⟩
      rw [Ne, List.take_eq_nil_iff, not_or]
      exact ⟨more.1, fun empty => by simp [empty] at more⟩
    · obtain ⟨nonempty, inside⟩ := ih later
      exact ⟨nonempty, fun c member => List.drop_subset _ _ (inside member)⟩

theorem isTame_of_mem_directory {family : Family} {span : Span} {groupLength : Nat}
    {part : String} (h : part ∈ directory family span groupLength) :
    ∀ c ∈ part.toList, Path.IsTame c := by
  rcases List.mem_cons.1 h with rfl | nested
  · exact isTame_word family
  · obtain ⟨group, member, rfl⟩ := List.mem_map.1 nested
    intro c own
    rw [String.toList_ofList] at own
    exact Path.isTame_of_isDigit (isDigit_of_mem_nestingDigits ((mem_groups member).2 own))

theorem isPlain_of_mem_directory {family : Family} {span : Span} {groupLength : Nat}
    {part : String} (h : part ∈ directory family span groupLength) : Path.IsPlain part := by
  have tame := isTame_of_mem_directory h
  rcases List.mem_cons.1 h with rfl | nested
  · exact isPlain_word family
  · obtain ⟨group, member, rfl⟩ := List.mem_map.1 nested
    obtain ⟨nonempty, inside⟩ := mem_groups member
    obtain ⟨c, first⟩ := List.exists_mem_of_ne_nil group nonempty
    apply Path.isPlain_of_isTame tame (by rwa [String.toList_ofList])
    exact Text.digit_ne_dot (isDigit_of_mem_nestingDigits (inside first))

/-! ### Names of files -/

/-- After its digits the name of a file goes on with a dash or a dot. -/
theorem toList_headerName (family : Family) (span : Span) :
    ∃ c rest, (headerName family span).toList =
        family.word.toList ++ ((Text.decimal span.first).toList ++ c :: rest) ∧
      c.isDigit = false ∧ ∀ d ∈ c :: rest, Path.IsTame d := by
  rw [headerName, Span.text]
  split_ifs with single
  · refine ⟨'.', ['h'], by simp, by decide, ?_⟩
    simp only [List.forall_mem_cons]
    exact ⟨by decide, by decide, fun _ none => absurd none List.not_mem_nil⟩
  · refine ⟨'-', (Text.decimal span.last).toList ++ ['.', 'h'], by simp, by decide, ?_⟩
    simp only [List.forall_mem_cons, List.forall_mem_append]
    exact ⟨by decide, fun d digit => Path.isTame_of_isDigit (Text.isDigit_of_mem_decimal digit),
      by decide, by decide, fun _ none => absurd none List.not_mem_nil⟩

theorem isTame_headerName (family : Family) (span : Span) :
    ∀ c ∈ (headerName family span).toList, Path.IsTame c := by
  obtain ⟨c, rest, chars, -, tame⟩ := toList_headerName family span
  rw [chars]
  simp only [List.forall_mem_append]
  exact ⟨isTame_word family,
    fun d digit => Path.isTame_of_isDigit (Text.isDigit_of_mem_decimal digit), tame⟩

theorem isPlain_headerName (family : Family) (span : Span) :
    Path.IsPlain (headerName family span) := by
  obtain ⟨c, rest, chars, -, -⟩ := toList_headerName family span
  obtain ⟨first, inside⟩ := List.exists_mem_of_ne_nil _ (Text.toList_decimal_ne_nil span.first)
  refine Path.isPlain_of_isTame (isTame_headerName family span) ?_
    (Text.digit_ne_dot (Text.isDigit_of_mem_decimal inside))
  rw [chars]
  exact List.mem_append_right _ (List.mem_append_left _ inside)

theorem takeWhile_isDigit {n : Nat} {c : Char} {rest : List Char} (stop : c.isDigit = false) :
    ((Text.decimal n).toList ++ c :: rest).takeWhile Char.isDigit = (Text.decimal n).toList := by
  rw [List.takeWhile_append_of_pos fun d => Text.isDigit_of_mem_decimal,
    List.takeWhile_cons_of_neg (by simp [stop]), List.append_nil]

theorem headerName_injective {family family' : Family} {span span' : Span}
    (same : headerName family span = headerName family' span') :
    family = family' ∧ span.first = span'.first := by
  have chars := congrArg String.toList same
  obtain ⟨c, rest, written, stop, -⟩ := toList_headerName family span
  obtain ⟨c', rest', written', stop', -⟩ := toList_headerName family' span'
  rw [written, written'] at chars
  have families : family = family' := by
    cases family <;> cases family' <;> first | rfl | exact absurd chars (by simp [Family.word])
  subst families
  refine ⟨rfl, Text.decimal_injective (String.toList_inj.1 ?_)⟩
  have digits := congrArg (List.takeWhile Char.isDigit) (List.append_cancel_left chars)
  rwa [takeWhile_isDigit stop, takeWhile_isDigit stop'] at digits

/-! ### Ways -/

/-- Where a name leads from a directory, when nothing but names counts. -/
def enter (here : List String) (name : String) : List String :=
  if name = "." then here else if name = ".." then here.dropLast else here ++ [name]

/-- Where a path leads from a directory. -/
def follow (here : List String) (path : String) : List String := (Path.names path).foldl enter here

/-- Where a name leads from a directory, unless it leads up from the top. -/
def enter? (here : List String) (name : String) : Option (List String) :=
  if name = ".." ∧ here = [] then none else some (enter here name)

/-- Where a path leads from a directory, name by name, unless one of them leads up from the top. -/
def walk? (here : List String) (path : String) : Option (List String) :=
  (Path.names path).foldlM enter? here

theorem foldl_of_foldlM_enter? {names here there : List String}
    (walks : names.foldlM enter? here = some there) : names.foldl enter here = there := by
  induction names generalizing here with
  | nil => exact Option.some.inj walks
  | cons name names ih =>
    rw [List.foldlM_cons] at walks
    obtain ⟨next, first, rest⟩ := Option.bind_eq_some_iff.1 walks
    rw [enter?] at first
    split_ifs at first
    rw [List.foldl_cons, Option.some.inj first, ih rest]

theorem enter?_up (here : List String) (name : String) :
    enter? (here ++ [name]) ".." = some here := by
  rw [enter?, if_neg (by simp), enter, if_neg (by decide), if_pos rfl, List.dropLast_concat]

theorem enter?_plain {name : String} (plain : Path.IsPlain name) (here : List String) :
    enter? here name = some (here ++ [name]) := by
  rw [enter?, if_neg fun top => plain.up top.1, enter, if_neg plain.here, if_neg plain.up]

/-- As many steps up as there are names lead past them. -/
theorem foldlM_up {m : Type → Type} [Monad m] [LawfulMonad m]
    {enters : List String → String → m (List String)}
    (up : ∀ here name, enters (here ++ [name]) ".." = pure here) (here names : List String) :
    (List.replicate names.length "..").foldlM enters (here ++ names) = pure here := by
  induction names using List.reverseRecOn with
  | nil => simp
  | append_singleton names name ih =>
    rw [List.length_append, List.length_singleton, List.replicate_succ, List.foldlM_cons,
      ← List.append_assoc, up, pure_bind, ih]

theorem foldlM_down {names : List String} (plain : ∀ name ∈ names, Path.IsPlain name)
    (here : List String) : names.foldlM enter? here = some (here ++ names) := by
  induction names generalizing here with
  | nil => rw [List.append_nil]; rfl
  | cons name names ih =>
    rw [List.forall_mem_cons] at plain
    rw [List.foldlM_cons, enter?_plain plain.1]
    exact (ih plain.2 _).trans (by rw [List.append_assoc]; rfl)

/-- From one directory to another it is up from what is only in the first, and down into what is
only in the second. -/
theorem exists_steps (source target : List String) :
    ∃ shared up down, source = shared ++ up ∧ target = shared ++ down ∧
      steps source target = List.replicate up.length ".." ++ down := by
  obtain ⟨up, source_eq⟩ := sharedStart_starts source target
  obtain ⟨down, target_eq⟩ := sharedStart_starts_right source target
  refine ⟨sharedStart source target, up, down, source_eq.symm, target_eq.symm, ?_⟩
  have length := congrArg List.length source_eq
  have rest := congrArg (List.drop (sharedStart source target).length) target_eq
  rw [List.length_append] at length
  rw [List.drop_left] at rest
  rw [steps, ← rest, ← length, Nat.add_sub_cancel_left]

theorem foldlM_steps (source : List String) {target : List String}
    (plain : ∀ name ∈ target, Path.IsPlain name) (top : List String) :
    (steps source target).foldlM enter? (top ++ source) = some (top ++ target) := by
  obtain ⟨shared, up, down, rfl, rfl, walked⟩ := exists_steps source target
  rw [walked, List.foldlM_append, ← List.append_assoc, foldlM_up enter?_up, ← List.append_assoc]
  exact foldlM_down (fun name member => plain name (List.mem_append_right _ member)) _

theorem names_steps {steps : List String} (h : ∀ step ∈ steps, '/' ∉ step.toList ∧ step ≠ "")
    (last : String) :
    Path.names (String.join (steps.map (· ++ "/")) ++ last) = steps ++ Path.names last := by
  induction steps with
  | nil => simp
  | cons step steps ih =>
    rw [List.forall_mem_cons] at h
    rw [List.map_cons, String.join_cons, String.append_assoc, Path.names_slash,
      Path.names_of_not_mem h.1.1 h.1.2, ih h.2]
    rfl

theorem names_way (source : List String) {target : List String}
    (plain : ∀ name ∈ target, Path.IsPlain name) (last : String) :
    Path.names (way source target ++ last) = steps source target ++ Path.names last := by
  rw [way, names_steps]
  intro step member
  rcases List.mem_append.1 member with up | down
  · obtain rfl := List.eq_of_mem_replicate up
    exact ⟨by decide, by decide⟩
  · have := plain step (List.mem_of_mem_drop down)
    exact ⟨this.apart, this.nonempty⟩

/-- The way from one directory to another, and the name of a file there, lead to the file, wherever
the two directories are. -/
theorem walk?_way (source : List String) {target : List String}
    (plain : ∀ name ∈ target, Path.IsPlain name) {file : String} (last : Path.IsPlain file)
    (top : List String) :
    walk? (top ++ source) (way source target ++ file) = some (top ++ target ++ [file]) := by
  rw [walk?, names_way source plain, List.foldlM_append, foldlM_steps source plain top,
    Path.names_plain last]
  exact foldlM_down (List.forall_mem_singleton.2 last) _

theorem follow_way (source : List String) {target : List String}
    (plain : ∀ name ∈ target, Path.IsPlain name) {file : String} (last : Path.IsPlain file) :
    follow source (way source target ++ file) = target ++ [file] :=
  foldl_of_foldlM_enter? (walk?_way source plain last [])

/-- On a disk where the directory is there, the way leads to it as well. -/
theorem placeFrom?_way {d : Disk} {top : Place} (source : List String) {target : List String}
    (plain : ∀ name ∈ target, Path.IsPlain name) {file : String} (last : Path.IsPlain file)
    (leads : target.foldlM d.enter top = .ok (top ++ target)) :
    d.placeFrom? (top ++ source) (way source target ++ file) = some (top ++ target ++ [file]) := by
  obtain ⟨shared, up, down, rfl, rfl, walked⟩ := exists_steps source target
  have climbs : ∀ here name, d.enter (here ++ [name]) ".." = .ok here := by
    intro here name
    have up : d.enter (here ++ [name]) ".." = .ok (here ++ [name]).dropLast := rfl
    rwa [List.dropLast_concat] at up
  have walks : (steps (shared ++ up) (shared ++ down)).foldlM d.enter (top ++ (shared ++ up)) =
      .ok (top ++ (shared ++ down)) := by
    rw [List.foldlM_append] at leads
    obtain ⟨middle, first, rest⟩ := bind_eq_ok.1 leads
    obtain rfl := Disk.foldlM_enter_plain
      (fun name member => plain name (List.mem_append_left _ member)) first
    rw [walked, List.foldlM_append, ← List.append_assoc, foldlM_up climbs]
    exact rest
  rw [Disk.placeFrom?, names_way _ plain, Path.names_plain last, List.dropLast_concat, walks,
    List.getLast?_concat]

end Layout

/-! ### Paths and places -/

namespace Header

variable {output : TreeOutput} {h : Header}

/-- The names that lead from the top of a tree to a header. -/
def placeInTree (output : TreeOutput) (h : Header) : Place :=
  Layout.directory h.family h.span output.groupLength ++ [Layout.headerName h.family h.span]

theorem path_eq (output : TreeOutput) (h : Header) :
    h.path output = Path.joinAll output.path (h.placeInTree output) := by
  rw [placeInTree, Path.joinAll, List.foldl_append]
  rfl

theorem names_path (output : TreeOutput) (h : Header) :
    Path.names (h.path output) = Path.names output.path ++ h.placeInTree output := by
  rw [path_eq, Path.names_joinAll]
  intro part member
  rcases List.mem_append.1 member with directory | file
  · exact Layout.isPlain_of_mem_directory directory
  · obtain rfl := List.mem_singleton.1 file
    exact Layout.isPlain_headerName h.family h.span

theorem placeInTree_eq_of_path_eq {g : Header}
    (same : g.path output = h.path output) : g.placeInTree output = h.placeInTree output := by
  have names := congrArg Path.names same
  rw [names_path, names_path] at names
  exact List.append_cancel_left names

/-- A header's path names the place that the header has below the top of the tree. -/
theorem place_of_path {d : Disk} {place : Place}
    (found : d.placeOf? (h.path output) = some place) :
    ∃ top, d.resolve output.path = .ok top ∧
      (Layout.directory h.family h.span output.groupLength).foldlM d.enter top =
        .ok (top ++ Layout.directory h.family h.span output.groupLength) ∧
      place = top ++ h.placeInTree output := by
  obtain ⟨top, leads, down, rfl⟩ := Disk.place_of_plain
    (fun _ => Layout.isPlain_of_mem_directory) (Layout.isPlain_headerName h.family h.span) found
  exact ⟨top, leads, down, List.append_assoc _ _ _⟩

theorem eq_of_placeInTree_eq {g : Header} (same : h.placeInTree output = g.placeInTree output) :
    h.family = g.family ∧ h.span.first = g.span.first :=
  Layout.headerName_injective (List.singleton_inj.1 (List.append_inj' same rfl).2)

end Header

namespace Tree

variable {output : TreeOutput} {guardStyle : GuardStyle}

theorem writes_append (actions rest : List Action) :
    Plan.writes (actions ++ rest) = Plan.writes actions ++ Plan.writes rest := by
  rw [Plan.writes, List.filterMap_append]
  rfl

theorem writes_reports (events : List Event) : Plan.writes (events.map .report) = [] := by
  simp [Plan.writes, List.filterMap_map]

/-- The files that a tree's steps write are its headers. -/
theorem writes_actions (made : List String) (steps : List Step) :
    Plan.writes (actions output guardStyle made steps) =
      (headers steps).map fun h => (h.path output, h.text guardStyle) := by
  induction steps generalizing made with
  | nil => rfl
  | cons step steps ih =>
    cases step with
    | report event => simp only [actions, writes_append, ih]; rfl
    | write header =>
      simp only [actions, stepActions, writes_append, writes_reports, ih]
      split_ifs <;> rfl

end Tree

end EnumMacros
