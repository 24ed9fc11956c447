import EnumMacros.Command.Run
import EnumMacros.Proofs.Command.Refusing
import EnumMacros.Proofs.Header.Delivering
import EnumMacros.Proofs.Header.Tiling

/-! What a failed generation leaves, on any file system. A request that is refused leaves everything
as it was. A run that fails on the way has written no file, or the headers of a tree before the one
that it failed at; what these hold does not depend on the files. -/

namespace EnumMacros

variable {σ : Type} [FileSystem σ]

/-! ### Headers one after the other -/

section Headers

variable {output : TreeOutput} {guardStyle : GuardStyle} {header : Header} {fault : Fault}
  {before middle after : σ}

namespace Header

/-- The directory of a header is made, unless that has been done. -/
def Prepared (output : TreeOutput) (header : Header) (before after : σ) : Prop :=
  after = before ∨ FileSystem.makeDirectories before (header.directory output) = (after, none)

/-- A header is written into its directory. -/
def Delivered (output : TreeOutput) (guardStyle : GuardStyle) (header : Header)
    (before after : σ) : Prop :=
  ∃ ready, header.Prepared output before ready ∧
    FileSystem.writeFile ready (header.path output) (header.text guardStyle) = (after, none)

/-- A header is refused: its directory cannot be made, or it cannot be written. The fault is about
the one or the other. -/
def Refused (output : TreeOutput) (guardStyle : GuardStyle) (header : Header) (fault : Fault)
    (before after : σ) : Prop :=
  ∃ reason,
    (fault = .unwritable (header.directory output) reason ∧
      FileSystem.makeDirectories before (header.directory output) = (after, some reason)) ∨
    fault = .unwritable (header.path output) reason ∧ ∃ ready, header.Prepared output before ready ∧
      FileSystem.writeFile ready (header.path output) (header.text guardStyle) =
        (after, some reason)

/-- The files that some headers are written to. -/
def files (output : TreeOutput) (guardStyle : GuardStyle) (headers : List Header) :
    List (String × String) :=
  headers.map fun header => (header.path output, header.text guardStyle)

end Header

namespace Tree

/-- Headers are written in order, and none is refused. -/
inductive Delivers (output : TreeOutput) (guardStyle : GuardStyle) : List Header → σ → σ → Prop
  | nil {d : σ} : Delivers output guardStyle [] d d
  | cons {header : Header} {headers : List Header} {before middle after : σ} :
    header.Delivered output guardStyle before middle →
      Delivers output guardStyle headers middle after →
      Delivers output guardStyle (header :: headers) before after

/-- A run writes some headers, up to the first that is refused. -/
inductive Goes (output : TreeOutput) (guardStyle : GuardStyle) (headers : List Header)
    (before after : σ) : Option Fault → Prop
  | through : Delivers output guardStyle headers before after →
    Goes output guardStyle headers before after none
  | upTo {earlier later : List Header} {header : Header} {middle : σ} {fault : Fault} :
    headers = earlier ++ header :: later → Delivers output guardStyle earlier before middle →
      header.Refused output guardStyle fault middle after →
      Goes output guardStyle headers before after (some fault)

theorem Goes.cons {headers : List Header} {fault? : Option Fault}
    (first : header.Delivered output guardStyle before middle)
    (h : Goes output guardStyle headers middle after fault?) :
    Goes output guardStyle (header :: headers) before after fault? := by
  cases h with
  | through delivers => exact .through (.cons first delivers)
  | upTo place delivers refused =>
    exact .upTo (by rw [place, List.cons_append]) (.cons first delivers) refused

end Tree

end Headers

/-- The fault of a run. -/
def Result.fault? : Result → Option Fault
  | .failed fault => some fault
  | .finished _ | .sizesExhausted => none

namespace Tree

variable {output : TreeOutput} {guardStyle : GuardStyle}

/-- A run ends at a header that is refused, or goes on from where the header is written. -/
def Passes (output : TreeOutput) (guardStyle : GuardStyle) (header : Header) (rest : List Action)
    (o after : Outcome σ) : Prop :=
  (∃ fault, after.result = .failed fault ∧
    header.Refused output guardStyle fault o.disk after.disk) ∨
  ∃ next : Outcome σ, header.Delivered output guardStyle o.disk next.disk ∧
    next.result = o.result ∧ after = Plan.performAll rest next

/-- Once the directory of a header is known to be there, the header is written into it, or is
refused. -/
theorem passes_of_prepared {header : Header} {o : Outcome σ} {ready : σ}
    (prepared : header.Prepared output o.disk ready) (events : List Event) (wrote : Event)
    (rest : List Action) :
    Passes output guardStyle header rest o
      (Plan.performAll (events.map .report ++
        .writeFile (header.path output) (header.text guardStyle) :: .report wrote :: rest)
        { o with disk := ready }) := by
  rw [Plan.performAll_reports]
  rcases Plan.performAll_writeFile (header.path output) (header.text guardStyle)
    (.report wrote :: rest) { o with disk := ready, events := o.events ++ events } with
    ⟨reason, disk, refused, ends⟩ | ⟨disk, written, goes_on⟩
  · rw [ends]
    exact .inl ⟨_, rfl, reason, .inr ⟨rfl, ready, prepared, refused⟩⟩
  · rw [goes_on]
    exact .inr ⟨{ o with disk, events := o.events ++ events ++ [wrote] },
      ⟨ready, prepared, written⟩, rfl, rfl⟩

/-- The steps of one header make its directory, if that is still to do, and write it. -/
theorem passes_stepActions (made : List String) (header : Header) (rest : List Action)
    (o : Outcome σ) :
    Passes output guardStyle header rest o
      (Plan.performAll (stepActions output guardStyle made (.write header) ++ rest) o) := by
  simp only [stepActions, List.append_assoc, List.cons_append, List.nil_append]
  split_ifs
  · exact passes_of_prepared (.inl rfl) _ _ rest
  · rw [List.singleton_append]
    rcases Plan.performAll_makeDirectories (header.directory output) _ o with
      ⟨reason, disk, refused, ends⟩ | ⟨disk, makes, goes_on⟩
    · rw [ends]
      exact .inl ⟨_, rfl, reason, .inl ⟨rfl, refused⟩⟩
    · rw [goes_on]
      exact passes_of_prepared (.inr makes) _ _ rest

/-- A run of a tree writes its headers, up to the first that is refused. -/
theorem goes_performAll (made : List String) (steps : List Step) (o : Outcome σ)
    (sound : o.result.fault? = none) :
    let after := Plan.performAll (actions output guardStyle made steps) o
    Goes output guardStyle (headers steps) o.disk after.disk after.result.fault? := by
  induction steps generalizing made o with
  | nil =>
    show Goes output guardStyle [] o.disk o.disk o.result.fault?
    rw [sound]
    exact .through .nil
  | cons step steps ih =>
    cases step with
    | report event => exact ih made { o with events := o.events ++ [event] } sound
    | write header =>
      intro after
      rcases passes_stepActions made header
          (actions output guardStyle (header.directory output :: made) steps) o with
        ⟨fault, fails, refused⟩ | ⟨next, delivered, same, goes_on⟩
      · rw [show after.result = .failed fault from fails]
        exact .upTo (List.nil_append _).symm .nil refused
      · rw [show after = _ from goes_on]
        exact (ih (header.directory output :: made) next (same ▸ sound)).cons delivered

end Tree

/-! ### The files afterwards -/

namespace FileSystem.Lawful

variable {ι : Type} [DecidableEq ι] {file? : σ → ι → Option String} {place : σ → String → ι}
  {output : TreeOutput} {guardStyle : GuardStyle} {header : Header} {before after : σ}

theorem prepared (lawful : Lawful file? place) (h : header.Prepared output before after) :
    file? after = file? before ∧ place after = place before := by
  rcases h with rfl | makes
  · exact ⟨rfl, rfl⟩
  · exact ⟨lawful.made makes, lawful.place_made makes⟩

theorem delivered (lawful : Lawful file? place)
    (h : header.Delivered output guardStyle before after) :
    file? after = Function.update (file? before) (place before (header.path output))
        (some (header.text guardStyle)) ∧
      place after = place before := by
  obtain ⟨ready, prepared, writes⟩ := h
  obtain ⟨files, places⟩ := lawful.prepared prepared
  rw [lawful.written writes, lawful.place_written writes, files, places]
  exact ⟨rfl, rfl⟩

theorem refused_header (lawful : Lawful file? place) {fault : Fault}
    (h : header.Refused output guardStyle fault before after) : file? after = file? before := by
  obtain ⟨reason, ⟨-, refused⟩ | ⟨-, ready, prepared, refused⟩⟩ := h
  · exact lawful.made refused
  · exact (lawful.refused refused).trans (lawful.prepared prepared).1

/-- Headers that are written in order overwrite the files in that order. -/
theorem delivers (lawful : Lawful file? place) {headers : List Header}
    (h : Tree.Delivers output guardStyle headers before after) :
    file? after =
      overwrite (place before) (file? before) (Header.files output guardStyle headers) := by
  induction h with
  | nil => rfl
  | cons first _ ih =>
    obtain ⟨files, places⟩ := lawful.delivered first
    rw [ih, files, places]
    rfl

end FileSystem.Lawful

namespace Job

variable {ι : Type} [DecidableEq ι] {file? : σ → ι → Option String} {place : σ → String → ι}
  {job : Job} {fault : Fault}

theorem performAll_prepare (lawful : FileSystem.Lawful file? place) (path : String)
    (rest : List Action) (o : Outcome σ) :
    ∃ disk, file? disk = file? o.disk ∧
      ((∃ fault, Plan.performAll (prepare path ++ rest) o =
        { o with disk, result := .failed fault }) ∨
      Plan.performAll (prepare path ++ rest) o = Plan.performAll rest { o with disk }) := by
  rw [prepare]
  split
  · next parent _ =>
    split_ifs
    · exact ⟨o.disk, rfl, .inr rfl⟩
    · rw [List.singleton_append]
      rcases Plan.performAll_makeDirectories parent rest o with
        ⟨reason, disk, refused, ends⟩ | ⟨disk, makes, goes_on⟩
      · exact ⟨disk, lawful.made refused, .inl ⟨_, ends⟩⟩
      · exact ⟨disk, lawful.made makes, .inr goes_on⟩
  · exact ⟨o.disk, rfl, .inr rfl⟩

/-- A run that fails to write a single header leaves all files as they were. -/
theorem files_of_failed_single (lawful : FileSystem.Lawful file? place) {path : String}
    (output : job.output = .file path) {disk : σ}
    (fails : (job.singlePlan.run disk).result = .failed fault) :
    file? (job.singlePlan.run disk).disk = file? disk := by
  rw [singlePlan] at fails ⊢
  rcases found : job.singleSpan (.start job.style) with ⟨_ | span, events, c⟩
  · simp only [found, Plan.run, Plan.performAll_map_report, Plan.endResult] at fails
    exact absurd fails (by simp)
  · simp only [found, Plan.run, Plan.performAll_reports, output, singleActions, List.append_assoc,
      List.cons_append, List.nil_append] at fails ⊢
    obtain ⟨made, same, ⟨_, ends⟩ | goes_on⟩ := performAll_prepare lawful path _ _
    · rw [ends]
      exact same
    · rw [goes_on] at fails ⊢
      rcases Plan.performAll_writeFile path _ _ (⟨made, _, _, _⟩ : Outcome σ) with
        ⟨reason, written, refused, ends⟩ | ⟨written, -, goes_on⟩
      · rw [ends]
        exact (lawful.refused refused).trans same
      · rw [goes_on, Plan.performAll_reports] at fails
        exact absurd fails (by simp [Plan.performAll, Plan.perform, Plan.endResult])

end Job

/-! ### Jobs -/

namespace Command

variable {job : Job} {disk : σ} {fault : Fault}

theorem disk_generate {plan : Plan} (planned : job.plan = .ok plan) :
    (generate job disk).disk = (plan.run disk).disk := by
  rw [generate]
  simp only [planned]
  split <;> rfl

/-- A job that fails with a fault is refused, or a step of its run fails. -/
theorem generate_fails (h : (generate job disk).failure = some (.fault fault)) :
    (job.plan = .error fault ∧ (generate job disk).printed = "" ∧ (generate job disk).disk = disk) ∨
    ∃ plan, job.plan = .ok plan ∧ (plan.run disk).result = .failed fault := by
  rw [generate] at h ⊢
  cases planned : job.plan with
  | error other =>
    simp only [planned, Option.some.injEq, Failure.fault.injEq] at h
    exact .inl ⟨by rw [h], rfl, rfl⟩
  | ok plan =>
    refine .inr ⟨plan, rfl, ?_⟩
    cases result : (plan.run disk).result with
    | finished summary => simp [planned, result] at h
    | sizesExhausted => simp [planned, result] at h
    | failed other =>
      simp only [planned, result, Option.some.injEq, Failure.fault.injEq] at h
      rw [h]

/-- A job that does not fail is planned, and no step of its run fails. -/
theorem generate_succeeds (h : (generate job disk).failure = none) :
    ∃ plan summary, job.plan = .ok plan ∧ (plan.run disk).result = .finished summary := by
  rw [generate] at h
  cases planned : job.plan with
  | error fault => simp [planned] at h
  | ok plan =>
    cases result : (plan.run disk).result with
    | finished summary => exact ⟨plan, summary, rfl, result⟩
    | sizesExhausted => simp [planned, result] at h
    | failed fault => simp [planned, result] at h

/-- The headers of a tree for a job, in order. -/
def headers (job : Job) (output : TreeOutput) : List Header :=
  Tree.headers
    (Tree.grown output job.guardStyle job.selected job.range (.start job.style)).steps

theorem plan_eq_tree {plan : Plan} {output : TreeOutput} (planned : job.plan = .ok plan)
    (tree : job.output = .tree output) :
    plan = Tree.plan output job.guardStyle job.selected job.range (.start job.style) := by
  obtain ⟨_, -, same⟩ := bind_eq_ok.1 planned
  rw [tree] at same
  exact (Except.ok.inj same).symm

theorem plan_eq_file {plan : Plan} {path : String} (planned : job.plan = .ok plan)
    (file : job.output = .file path) : plan = job.singlePlan := by
  obtain ⟨_, -, same⟩ := bind_eq_ok.1 planned
  rw [file] at same
  exact (Except.ok.inj same).symm

theorem fault?_endResult (ending : Ending) : (Plan.endResult ending).fault? = none := by
  cases ending <;> rfl

/-- A run of a job writes the headers of its tree, up to the first that is refused. -/
theorem goes_run {plan : Plan} {output : TreeOutput} (planned : job.plan = .ok plan)
    (tree : job.output = .tree output) (disk : σ) :
    Tree.Goes output job.guardStyle (headers job output) disk (plan.run disk).disk
      (plan.run disk).result.fault? := by
  rw [plan_eq_tree planned tree]
  exact Tree.goes_performAll [] _ ⟨disk, "", [], Plan.endResult _⟩ (fault?_endResult _)

/-- A job that fails for another reason than that a path cannot be written has done nothing. -/
theorem untouched_of_fault (failure : (generate job disk).failure = some (.fault fault))
    (other : fault.code ≠ Fault.writeCode) :
    (generate job disk).printed = "" ∧ (generate job disk).disk = disk := by
  rcases generate_fails failure with ⟨-, untouched⟩ | ⟨plan, -, fails⟩
  · exact untouched
  · have sound : Plan.endResult plan.ending ≠ .failed fault := by
      cases plan.ending <;> exact Result.noConfusion
    obtain ⟨path, reason, rfl⟩ := Plan.unwritable_of_failed fails sound
    exact absurd rfl other

/-- What is wrong with the options of a generation is no failure to write. A job that fails has left
everything as it was, unless the fault is that a path could not be written. Then a single header has
left all files as they were, and a tree has written its headers in order before the one that was
refused, and has left the files overwritten by just these. They are the first of the headers that
the same job writes wherever it does not fail. -/
theorem failed_generation_leaves_prefix {ι : Type} [DecidableEq ι] {file? : σ → ι → Option String}
    {place : σ → String → ι} (lawful : FileSystem.Lawful file? place) :
    (∀ r fault, jobOf r = .error fault → fault.code ≠ Fault.writeCode) ∧
    ∀ (job : Job) (disk : σ) (fault : Fault),
      (generate job disk).failure = some (.fault fault) →
      (fault.code ≠ Fault.writeCode →
        (generate job disk).printed = "" ∧ (generate job disk).disk = disk) ∧
      (fault.code = Fault.writeCode →
        (∀ path, job.output = .file path → file? (generate job disk).disk = file? disk) ∧
        ∀ output, job.output = .tree output →
          ∃ earlier header later middle, headers job output = earlier ++ header :: later ∧
            Tree.Delivers output job.guardStyle earlier disk middle ∧
            header.Refused output job.guardStyle fault middle (generate job disk).disk ∧
            file? (generate job disk).disk = FileSystem.overwrite (place disk) (file? disk)
              (Header.files output job.guardStyle earlier) ∧
            ∀ other : σ, (generate job other).failure = none →
              file? (generate job other).disk = FileSystem.overwrite (place other) (file? other)
                (Header.files output job.guardStyle (headers job output))) := by
  refine ⟨onRequest_jobOf, fun job disk fault failure =>
    ⟨untouched_of_fault failure, fun unwritable => ?_⟩⟩
  -- Only a step of a run fails to write: the check of the job does not.
  rcases generate_fails failure with ⟨refused, -, -⟩ | ⟨plan, planned, fails⟩
  · exact absurd unwritable (job.onRequest_plan fault refused)
  refine ⟨fun path file => ?file, fun output tree => ?tree⟩
  case file =>
    rw [disk_generate planned]
    rw [plan_eq_file planned file] at fails ⊢
    exact Job.files_of_failed_single lawful file fails
  case tree =>
    have goes := goes_run planned tree disk
    rw [fails, Result.fault?] at goes
    cases goes with
    | upTo split delivers refused =>
      rw [disk_generate planned]
      refine ⟨_, _, _, _, split, delivers, refused, ?_, fun other succeeds => ?_⟩
      · rw [lawful.refused_header refused, lawful.delivers delivers]
      · obtain ⟨plan', summary, planned', finished⟩ := generate_succeeds succeeds
        have goes := goes_run planned' tree other
        rw [finished, Result.fault?] at goes
        cases goes with
        | through delivers =>
          rw [disk_generate planned', lawful.delivers delivers]

/-- Where a file stands in the way of the second family's directory, the headers of the first are
written and the file is kept. -/
theorem failed_generation_leaves_checks :
    let job : Job := ⟨⟨2, some 3⟩, .all, .added, .classic, .standard, .tree ⟨"out", 1, 2⟩, none⟩
    let disk : Disk :=
      ⟨[(["work", "out", "uniqenum"], "kept")], [["work", "out"], ["work"]], ["work"]⟩
    ∃ earlier header later, headers job ⟨"out", 1, 2⟩ = earlier ++ header :: later ∧
      header.directory ⟨"out", 1, 2⟩ = "out/uniqenum" ∧
      (generate job disk).disk.file? = FileSystem.overwrite disk.target disk.file?
        (Header.files ⟨"out", 1, 2⟩ .classic earlier) := by
  intro job disk
  have fails : (generate job disk).failure =
      some (.fault (.unwritable "out/uniqenum" "File exists (os error 17)")) := by decide +kernel
  have paths : (headers job ⟨"out", 1, 2⟩).all (·.path ⟨"out", 1, 2⟩ != "out/uniqenum") = true := by
    decide +kernel
  obtain ⟨-, leaves⟩ := failed_generation_leaves_prefix Disk.lawful
  obtain ⟨earlier, header, later, middle, split, -, ⟨reason, refused⟩, files, -⟩ :=
    ((leaves job disk _ fails).2 rfl).2 _ rfl
  refine ⟨earlier, header, later, split, ?_, files⟩
  rcases refused with ⟨said, -⟩ | ⟨said, -⟩
  · exact (Fault.unwritable.inj said).1.symm
  · -- None of the headers lies where the fault is.
    have apart := List.all_eq_true.1 paths header (by simp [split])
    exact absurd (Fault.unwritable.inj said).1.symm (by simpa using apart)

end Command

end EnumMacros
