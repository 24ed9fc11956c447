import EnumMacros.Proofs.Header.Placing

/-! Ways through directories. Whoever walks from one directory to another has to leave what only the
first is in, and then to enter what only the second is in, whatever else is done on the walk. The
way between them does nothing else, so it is part of every walk, and no path is shorter:
`walk?_way_shortest`. -/

namespace EnumMacros.Layout

/-! ### The way and the steps next to it -/

theorem steps_nil (target : List String) : steps [] target = target := rfl

theorem steps_to_nil (source : List String) :
    steps source [] = List.replicate source.length ".." := by
  cases source <;> simp [steps, sharedStart]

theorem steps_cons_same (name : String) (source target : List String) :
    steps (name :: source) (name :: target) = steps source target := by
  simp [steps, sharedStart]

theorem steps_cons_of_ne {name other : String} (apart : name ≠ other)
    (source target : List String) :
    steps (name :: source) (other :: target) =
      ".." :: (List.replicate source.length ".." ++ other :: target) := by
  simp [steps, sharedStart, apart, List.replicate_succ]

theorem steps_self (source : List String) : steps source source = [] := by
  induction source with
  | nil => rfl
  | cons name source ih => rw [steps_cons_same, ih]

/-- Of a directory and one inside it, the way from one of the two to a third leads through the
other. -/
theorem steps_concat (here : List String) (name : String) (target : List String) :
    steps here target = name :: steps (here ++ [name]) target ∨
      steps (here ++ [name]) target = ".." :: steps here target := by
  induction here generalizing target with
  | nil =>
    cases target with
    | nil => exact .inr (steps_to_nil [name])
    | cons other target =>
      rw [List.nil_append, steps_nil]
      by_cases same : name = other
      · subst same
        rw [steps_cons_same, steps_nil]
        exact .inl rfl
      · exact .inr (steps_cons_of_ne same [] target)
  | cons first here ih =>
    rw [List.cons_append]
    cases target with
    | nil =>
      rw [steps_to_nil, steps_to_nil, List.length_cons, List.length_cons, List.length_append]
      exact .inr rfl
    | cons other target =>
      by_cases same : first = other
      · subst same
        rw [steps_cons_same, steps_cons_same]
        exact ih target
      · rw [steps_cons_of_ne same, steps_cons_of_ne same, List.length_append]
        exact .inr rfl

/-! ### Walks -/

/-- A step stays, or leads up, or leads down. -/
theorem enter?_cases {here there : List String} {name : String}
    (enters : enter? here name = some there) :
    there = here ∨ (name = ".." ∧ ∃ last, here = there ++ [last]) ∨ there = here ++ [name] := by
  rw [enter?] at enters
  split_ifs at enters with top
  obtain rfl := Option.some.inj enters
  rw [enter]
  split_ifs with stays up
  · exact .inl rfl
  · have inside : here ≠ [] := fun empty => top ⟨up, empty⟩
    exact .inr (.inl ⟨up, here.getLast inside, (List.dropLast_concat_getLast inside).symm⟩)
  · exact .inr (.inr rfl)

/-- Every walk makes the steps of the way, in their order. -/
theorem steps_sublist {names source target : List String}
    (walks : names.foldlM enter? source = some target) : (steps source target).Sublist names := by
  -- the way from where a step leads is the way from before without that step, or with a step back
  induction names generalizing source with
  | nil =>
    obtain rfl : source = target := Option.some.inj walks
    exact List.sublist_nil.2 (steps_self source)
  | cons name names ih =>
    rw [List.foldlM_cons] at walks
    obtain ⟨there, enters, rest⟩ := Option.bind_eq_some_iff.1 walks
    have later : (steps there target).Sublist names := ih rest
    rcases enter?_cases enters with rfl | ⟨rfl, last, rfl⟩ | rfl
    case inl => exact later.cons name
    case inr.inl =>
      rcases steps_concat there last target with down | back
      · rw [down] at later
        exact (List.sublist_of_cons_sublist later).cons ".."
      · rw [back]
        exact later.cons_cons ".."
    case inr.inr =>
      rcases steps_concat source name target with down | back
      · rw [down]
        exact later.cons_cons name
      · rw [back] at later
        exact (List.sublist_of_cons_sublist later).cons name

/-- The way from one directory to another leads there and never up from the top. It is the shortest
path that does: all others have its names among theirs, in the same order, so that none has fewer
names, and one with as many has the same. In a tree of headers, wherever it stands, the way from a
header's directory to that of another header, with the other one's name after it, therefore leads to
the path of that header. -/
theorem walk?_way_shortest :
    (∀ source target, (∀ name ∈ target, Path.IsPlain name) →
      walk? source (way source target) = some target ∧
      ∀ path, walk? source path = some target →
        (Path.names (way source target)).Sublist (Path.names path)) ∧
    ∀ top family span other groupLength,
      walk? (Path.names (Path.joinAll top (directory family span groupLength)))
        (way (directory family span groupLength) (directory .distinct other groupLength) ++
          headerName .distinct other) =
      some (Path.names (Path.join (Path.joinAll top (directory .distinct other groupLength))
        (headerName .distinct other))) := by
  have plain {family : Family} {span : Span} {groupLength : Nat} :
      ∀ name ∈ directory family span groupLength, Path.IsPlain name :=
    fun _ => isPlain_of_mem_directory
  refine ⟨fun source target names => ?between, fun top family span other groupLength => ?headers⟩
  case between =>
    have written : Path.names (way source target) = steps source target := by
      have whole := names_way source names ""
      rwa [String.append_empty, show Path.names "" = [] from rfl, List.append_nil] at whole
    rw [walk?, written]
    exact ⟨foldlM_steps source names [], fun path walks => steps_sublist walks⟩
  case headers =>
    have last := isPlain_headerName .distinct other
    rw [Path.names_joinAll top plain, walk?_way _ plain last, Path.names_join _ last,
      Path.names_joinAll top plain]

theorem walk?_way_shortest_between_families :
    (∀ name ∈ ["areuniq", "12"], Path.IsPlain name) ∧
    way ["uniqenum", "12", "34"] ["areuniq", "12"] = "../../../areuniq/12/" ∧
    walk? ["uniqenum", "12", "34"] "../../../areuniq/12/" = some ["areuniq", "12"] := by
  have plain : ∀ name ∈ ["areuniq", "12"], Path.IsPlain name := by
    simp only [List.forall_mem_cons]
    exact ⟨isPlain_word .distinct, ⟨by decide, by decide, by decide, by decide⟩,
      fun _ none => absurd none List.not_mem_nil⟩
  have written : way ["uniqenum", "12", "34"] ["areuniq", "12"] = "../../../areuniq/12/" := by
    decide
  refine ⟨plain, written, ?_⟩
  rw [← written]
  exact (walk?_way_shortest.1 _ _ plain).1

end EnumMacros.Layout
