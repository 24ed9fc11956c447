import EnumMacros.Proofs.Files.Writing

/-! Runs step by step. Reports never fail. A directory is made or not, a file is written or not, and
the first time it is not the run is over: a failed run ends with the fault of a step on the disk,
and prints nothing unless it has a step that does. What a run does apart from its reports follows
from the other steps of its plan.

What is relied on is little: `FileSystem.Lawful` says which files are touched, and leaves open when
and why a step fails. A disk is one such system. -/

namespace EnumMacros

namespace Plan

variable {σ : Type} [FileSystem σ] {actions : List Action} {o : Outcome σ}

theorem performAll_reports (events : List Event) (rest : List Action) (o : Outcome σ) :
    performAll (events.map .report ++ rest) o =
      performAll rest { o with events := o.events ++ events } := by
  induction events generalizing o with
  | nil => rw [List.append_nil]; rfl
  | cons event events ih =>
    rw [List.map_cons, List.cons_append, performAll]
    simp only [perform, ih, List.append_assoc, List.singleton_append]

theorem performAll_map_report (events : List Event) (o : Outcome σ) :
    performAll (events.map .report) o = { o with events := o.events ++ events } := by
  have whole := performAll_reports events [] o
  rwa [List.append_nil] at whole

/-- The run goes on from the directory, or ends. -/
theorem performAll_makeDirectories (path : String) (rest : List Action) (o : Outcome σ) :
    (∃ reason disk, FileSystem.makeDirectories o.disk path = (disk, some reason) ∧
      performAll (.makeDirectories path :: rest) o =
        { o with disk, result := .failed (.unwritable path reason) }) ∨
    ∃ disk, FileSystem.makeDirectories o.disk path = (disk, none) ∧
      performAll (.makeDirectories path :: rest) o = performAll rest { o with disk } := by
  rw [performAll, perform]
  rcases FileSystem.makeDirectories o.disk path with ⟨disk, _ | reason⟩
  · exact .inr ⟨disk, rfl, rfl⟩
  · exact .inl ⟨reason, disk, rfl, rfl⟩

/-- The run goes on from the file, or ends. -/
theorem performAll_writeFile (path contents : String) (rest : List Action) (o : Outcome σ) :
    (∃ reason disk, FileSystem.writeFile o.disk path contents = (disk, some reason) ∧
      performAll (.writeFile path contents :: rest) o =
        { o with disk, result := .failed (.unwritable path reason) }) ∨
    ∃ disk, FileSystem.writeFile o.disk path contents = (disk, none) ∧
      performAll (.writeFile path contents :: rest) o = performAll rest { o with disk } := by
  rw [performAll, perform]
  rcases FileSystem.writeFile o.disk path contents with ⟨disk, _ | reason⟩
  · exact .inr ⟨disk, rfl, rfl⟩
  · exact .inl ⟨reason, disk, rfl, rfl⟩

/-- Nothing is printed but by the steps that print. -/
theorem printed_performAll (silent : ∀ text, .print text ∉ actions) (o : Outcome σ) :
    (performAll actions o).printed = o.printed := by
  induction actions generalizing o with
  | nil => rfl
  | cons action actions ih =>
    have rest := ih fun text member => silent text (List.mem_cons_of_mem _ member)
    cases action with
    | report event => exact rest _
    | print text => exact absurd List.mem_cons_self (silent text)
    | makeDirectories path =>
      rcases performAll_makeDirectories path actions o with ⟨_, _, -, ends⟩ | ⟨disk, -, goes_on⟩
      · rw [ends]
      · rw [goes_on, rest]
    | writeFile path contents =>
      rcases performAll_writeFile path contents actions o with ⟨_, _, -, ends⟩ | ⟨disk, -, goes_on⟩
      · rw [ends]
      · rw [goes_on, rest]

/-- A run fails for no other reason than that a path cannot be written. -/
theorem unwritable_of_failed {fault : Fault}
    (fails : (performAll actions o).result = .failed fault) (sound : o.result ≠ .failed fault) :
    ∃ path reason, fault = .unwritable path reason := by
  induction actions generalizing o with
  | nil => exact absurd fails sound
  | cons action actions ih =>
    cases action with
    | report event => exact ih fails sound
    | print text => exact ih fails sound
    | makeDirectories path =>
      rcases performAll_makeDirectories path actions o with ⟨_, _, -, ends⟩ | ⟨disk, -, goes_on⟩
      · rw [ends] at fails
        exact ⟨path, _, (Result.failed.inj fails).symm⟩
      · rw [goes_on] at fails
        exact ih fails sound
    | writeFile path contents =>
      rcases performAll_writeFile path contents actions o with ⟨_, _, -, ends⟩ | ⟨disk, -, goes_on⟩
      · rw [ends] at fails
        exact ⟨path, _, (Result.failed.inj fails).symm⟩
      · rw [goes_on] at fails
        exact ih fails sound

/-! ### Runs apart from their reports -/

/-- The steps that do something. -/
def effects (actions : List Action) : List Action :=
  actions.filter fun
    | .report _ => false
    | _ => true

@[simp] theorem effects_append (actions others : List Action) :
    effects (actions ++ others) = effects actions ++ effects others :=
  List.filter_append ..

@[simp] theorem effects_reports (events : List Event) : effects (events.map .report) = [] := by
  rw [effects, List.filter_map, List.map_eq_nil_iff]
  exact List.filter_eq_nil_iff.2 fun _ _ => Bool.false_ne_true

end Plan

/-- The outcome without what was reported. -/
def Outcome.unreported {σ : Type} (o : Outcome σ) : Outcome σ := { o with events := [] }

theorem Outcome.unreported_eq_iff {σ : Type} {o other : Outcome σ} :
    o.unreported = other.unreported ↔
      o.printed = other.printed ∧ o.disk = other.disk ∧ o.result = other.result := by
  rw [unreported, unreported, Outcome.mk.injEq]
  grind

namespace Plan

variable {σ : Type} [FileSystem σ]

/-- Reports make no difference to what the other steps do. -/
theorem unreported_performAll (actions : List Action) (o : Outcome σ) :
    (performAll actions o).unreported = performAll (effects actions) o.unreported := by
  induction actions generalizing o with
  | nil => rfl
  | cons action actions ih =>
    cases action with
    | report event => exact ih _
    | print text => exact ih _
    | makeDirectories path =>
      have kept : effects (.makeDirectories path :: actions) =
        .makeDirectories path :: effects actions := rfl
      rw [kept, performAll, performAll]
      cases made : FileSystem.makeDirectories o.disk path with
      | mk disk refusal =>
        simp only [perform, Outcome.unreported, made]
        cases refusal with
        | none => exact ih _
        | some reason => rfl
    | writeFile path contents =>
      have kept : effects (.writeFile path contents :: actions) =
        .writeFile path contents :: effects actions := rfl
      rw [kept, performAll, performAll]
      cases written : FileSystem.writeFile o.disk path contents with
      | mk disk refusal =>
        simp only [perform, Outcome.unreported, written]
        cases refusal with
        | none => exact ih _
        | some reason => rfl

/-- Plans that differ only in their reports leave the same files, print the same and end the
same. -/
theorem unreported_run_congr {p q : Plan} (same : effects p.actions = effects q.actions)
    (ending : p.ending = q.ending) (disk : σ) :
    (p.run disk).unreported = (q.run disk).unreported := by
  rw [run, run, unreported_performAll, unreported_performAll, same, ending]

end Plan

/-! ### Files -/

namespace FileSystem

/-- Files of which some have been written in order, each at the place of its path. -/
def overwrite {ι : Type} [DecidableEq ι] (place : String → ι) (files : ι → Option String)
    (written : List (String × String)) : ι → Option String :=
  written.foldl (fun files (path, contents) =>
    Function.update files (place path) (some contents)) files

/-- What a run relies on, for the contents of the files at the places of a file system, and for the
places that paths stand for. Making directories touches no file, whether or not it fails. Writing
touches none if it fails, for whatever reason, and else the one at the place of the path. Neither
makes a path stand for another place. -/
structure Lawful {σ ι : Type} [FileSystem σ] [DecidableEq ι] (file? : σ → ι → Option String)
    (place : σ → String → ι) : Prop where
  place_made : ∀ {d after : σ} {path : String} {refusal : Option String},
    makeDirectories d path = (after, refusal) → place after = place d
  place_written : ∀ {d after : σ} {path contents : String} {refusal : Option String},
    writeFile d path contents = (after, refusal) → place after = place d
  made : ∀ {d after : σ} {path : String} {refusal : Option String},
    makeDirectories d path = (after, refusal) → file? after = file? d
  refused : ∀ {d after : σ} {path contents reason : String},
    writeFile d path contents = (after, some reason) → file? after = file? d
  written : ∀ {d after : σ} {path contents : String},
    writeFile d path contents = (after, none) →
      file? after = Function.update (file? d) (place d path) (some contents)

end FileSystem

namespace Disk

/-- The place that a name leads to from another, whether or not there is anything. -/
def follow (here : Place) (name : String) : Place :=
  if name = "." then here else if name = ".." then here.dropLast else here ++ [name]

/-- The place that a path stands for, whether or not there is anything. -/
def target (d : Disk) (path : String) : Place := (Path.names path).foldl follow (d.origin path)

variable {d later : Disk}

theorem enter_eq_follow {here there : Place} {name : String}
    (enters : d.enter here name = .ok there) : there = follow here name := by
  rw [enter] at enters
  rw [follow]
  split_ifs at enters ⊢
  all_goals exact (Except.ok.inj enters).symm

theorem foldlM_enter_eq_foldl {names : List String} {here there : Place}
    (enters : names.foldlM d.enter here = .ok there) : there = names.foldl follow here := by
  induction names generalizing here with
  | nil => exact (Except.ok.inj enters).symm
  | cons name names ih =>
    rw [List.foldlM_cons] at enters
    obtain ⟨next, first, rest⟩ := bind_eq_ok.1 enters
    rw [ih rest, enter_eq_follow first, List.foldl_cons]

theorem eq_target {path : String} {place : Place} (found : d.placeOf? path = some place) :
    place = d.target path := by
  obtain ⟨parent, name, same, rfl⟩ := placeOf?_eq_some found
  obtain ⟨before, names, here, up, -, leads⟩ := site_eq_ok same
  rw [target, names, List.foldl_append, ← foldlM_enter_eq_foldl leads, List.foldl_cons,
    List.foldl_nil, follow, if_neg here, if_neg up]

theorem Extends.target_eq (h : d.Extends later) : later.target = d.target := by
  funext path
  rw [target, target, h.origin]

theorem file?_put (d : Disk) (place : Place) (contents : String) :
    (d.put place contents).file? = Function.update d.file? place (some contents) := by
  funext other
  by_cases same : other = place
  · rw [same, file?_put_self, Function.update_self]
  · rw [file?_put_of_ne same, Function.update_of_ne same]

/-- Writing on a disk puts the contents at the place of the path, or leaves the disk as it was. -/
theorem writeFile_cases (d : Disk) (path contents : String) :
    FileSystem.writeFile d path contents = (d.put (d.target path) contents, none) ∨
      ∃ reason, FileSystem.writeFile d path contents = (d, some reason) := by
  cases writes : d.writeFile path contents with
  | ok after =>
    obtain ⟨place, found, rfl⟩ := writeFile_eq_ok writes
    rw [eq_target found] at writes
    exact .inl (by simp only [FileSystem.writeFile, writes])
  | error e => exact .inr ⟨e.message, by simp only [FileSystem.writeFile, writes]⟩

theorem prepares_of_makeDirectories {path : String} {refusal : Option String}
    (h : FileSystem.makeDirectories d path = (later, refusal)) : d.Prepares later := by
  rw [← (Prod.mk.inj h).1]
  exact prepares_makeDirectories d path

theorem lawful : FileSystem.Lawful file? target where
  place_made made := (prepares_of_makeDirectories made).target_eq
  place_written {d _ path contents _} writes := by
    rcases d.writeFile_cases path contents with written | ⟨_, refused⟩
    · rw [← (Prod.mk.inj (written.symm.trans writes)).1]
      exact (extends_put d _ contents).target_eq
    · rw [(Prod.mk.inj (refused.symm.trans writes)).1]
  made made := by
    funext place
    exact congrArg (·.lookup place) (prepares_of_makeDirectories made).files
  refused {d _ path contents _} writes := by
    rcases d.writeFile_cases path contents with written | ⟨_, refused⟩
    · cases written.symm.trans writes
    · rw [(Prod.mk.inj (refused.symm.trans writes)).1]
  written {d _ path contents} writes := by
    rcases d.writeFile_cases path contents with written | ⟨_, refused⟩
    · rw [← (Prod.mk.inj (written.symm.trans writes)).1]
      exact file?_put d _ contents
    · cases refused.symm.trans writes

end Disk

end EnumMacros
