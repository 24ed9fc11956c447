import EnumMacros.Plan
import EnumMacros.Proofs.Files.Paths

/-! What a run leaves on a disk. Directories are only added, so a path that leads somewhere goes on
leading there; making them touches no file, and writing touches one. A run that no step has failed
in therefore leaves each file it has written last at a place as it was written, and every other file
as it was: `Plan.keeps_performAll`. -/

namespace EnumMacros

namespace Disk

/-- The directory that the names of a path lead to, without regard for its length. -/
def resolve (d : Disk) (path : String) : Except DiskError Place :=
  (Path.names path).foldlM d.enter (d.origin path)

/-- The place of the file or directory that a path names. -/
def placeOf? (d : Disk) (path : String) : Option Place :=
  match d.site path with
  | .ok (parent, some name) => some (parent ++ [name])
  | _ => none

/-- The place of the file or directory that a path names when it is read from a directory. -/
def placeFrom? (d : Disk) (here : Place) (path : String) : Option Place :=
  match (Path.names path).getLast?, (Path.names path).dropLast.foldlM d.enter here with
  | some name, .ok parent => some (parent ++ [name])
  | _, _ => none

/-- The same disk, up to more directories and other files. -/
structure Extends (d later : Disk) : Prop where
  working : later.working = d.working
  directories : ∀ place, d.hasDirectory place = true → later.hasDirectory place = true

theorem Extends.refl (d : Disk) : d.Extends d := ⟨rfl, fun _ h => h⟩

theorem Extends.trans {d e f : Disk} (h : d.Extends e) (h' : e.Extends f) : d.Extends f :=
  ⟨h'.working.trans h.working, fun place has => h'.directories place (h.directories place has)⟩

variable {d later : Disk}

theorem Extends.enter (h : d.Extends later) {here there : Place} {name : String}
    (enters : d.enter here name = .ok there) : later.enter here name = .ok there := by
  rw [Disk.enter] at enters ⊢
  split_ifs at enters with long same up has file
  · rwa [if_neg long, if_pos same]
  · rwa [if_neg long, if_neg same, if_pos up]
  · rwa [if_neg long, if_neg same, if_neg up, if_pos (h.directories _ has)]

theorem Extends.foldlM_enter (h : d.Extends later) {names : List String} {here there : Place}
    (enters : names.foldlM d.enter here = .ok there) :
    names.foldlM later.enter here = .ok there := by
  induction names generalizing here with
  | nil => exact enters
  | cons name names ih =>
    rw [List.foldlM_cons] at enters ⊢
    obtain ⟨next, first, rest⟩ := bind_eq_ok.1 enters
    exact bind_eq_ok.2 ⟨next, h.enter first, ih rest⟩

theorem Extends.origin (h : d.Extends later) (path : String) :
    later.origin path = d.origin path := by
  rw [Disk.origin, Disk.origin, h.working]

theorem enter_plain {here there : Place} {name : String} (plain : Path.IsPlain name)
    (enters : d.enter here name = .ok there) : there = here ++ [name] := by
  rw [Disk.enter, if_neg plain.here, if_neg plain.up] at enters
  split_ifs at enters
  exact (Except.ok.inj enters).symm

/-- Plain names lead straight down. -/
theorem foldlM_enter_plain {names : List String} {here there : Place}
    (plain : ∀ name ∈ names, Path.IsPlain name)
    (enters : names.foldlM d.enter here = .ok there) : there = here ++ names := by
  induction names generalizing here with
  | nil => rw [List.append_nil]; exact (Except.ok.inj enters).symm
  | cons name names ih =>
    rw [List.forall_mem_cons] at plain
    rw [List.foldlM_cons] at enters
    obtain ⟨next, first, rest⟩ := bind_eq_ok.1 enters
    rw [ih plain.2 rest, enter_plain plain.1 first, List.append_assoc]
    rfl

/-! ### Making directories -/

theorem site_of_makeDirectory {made : Disk} {path : String} (h : d.makeDirectory path = .ok made) :
    ∃ place, made = { d with directories := place :: d.directories } := by
  rw [makeDirectory] at h
  obtain ⟨⟨parent, name⟩, -, h⟩ := bind_eq_ok.1 h
  cases name with
  | none => exact absurd h (by simp)
  | some name =>
    simp only at h
    split_ifs at h
    exact ⟨_, (Except.ok.inj h).symm⟩

/-- Directories are made without touching a file. -/
structure Prepares (d later : Disk) : Prop extends d.Extends later where
  files : later.files = d.files

theorem Prepares.refl (d : Disk) : d.Prepares d := ⟨.refl d, rfl⟩

theorem Prepares.trans {d e f : Disk} (h : d.Prepares e) (h' : e.Prepares f) : d.Prepares f :=
  ⟨h.toExtends.trans h'.toExtends, h'.files.trans h.files⟩

theorem prepares_makeDirectory {made : Disk} {path : String}
    (h : d.makeDirectory path = .ok made) : d.Prepares made := by
  obtain ⟨place, rfl⟩ := site_of_makeDirectory h
  refine ⟨⟨rfl, fun other has => ?_⟩, rfl⟩
  simp only [hasDirectory, Bool.or_eq_true, List.contains_iff_mem] at has ⊢
  exact has.imp_right (List.mem_cons_of_mem place)

theorem prepares_makeDirectories (d : Disk) (path : String) :
    d.Prepares (d.makeDirectories path).1 := by
  fun_induction makeDirectories d path with
  | case1 => exact .refl d
  | case2 path _ made same => exact prepares_makeDirectory same
  | case3 => exact .refl d
  | case4 path _ _ before _ partly e same ih => rwa [same] at ih
  | case5 path _ _ before _ partly same made made_same ih =>
    rw [same] at ih
    exact ih.trans (prepares_makeDirectory made_same)
  | case6 path _ _ before _ partly same e _ ih => rwa [same] at ih
  | case7 => exact .refl d

/-! ### Writing files -/

theorem placeOf?_eq_some {path : String} {place : Place} (h : d.placeOf? path = some place) :
    ∃ parent name, d.site path = .ok (parent, some name) ∧ parent ++ [name] = place := by
  rw [placeOf?] at h
  split at h
  · next parent name same => exact ⟨parent, name, same, Option.some.inj h⟩
  · exact absurd h (by simp)

theorem site_eq_ok {path : String} {parent : Place} {name : String}
    (h : d.site path = .ok (parent, some name)) :
    ∃ before, Path.names path = before ++ [name] ∧ name ≠ "." ∧ name ≠ ".." ∧
      checkPath path = .ok () ∧ before.foldlM d.enter (d.origin path) = .ok parent := by
  rw [site] at h
  obtain ⟨_, checked, h⟩ := bind_eq_ok.1 h
  cases names : (Path.names path).reverse with
  | nil => rw [names] at h; exact absurd h (by simp [pure, Except.pure])
  | cons last before =>
    rw [names] at h
    obtain ⟨there, leads, h⟩ := bind_eq_ok.1 h
    obtain ⟨rfl, named⟩ := Prod.mk.inj (Except.ok.inj h)
    split_ifs at named with other
    obtain rfl := Option.some.inj named
    rw [not_or] at other
    refine ⟨before.reverse, ?_, other.1, other.2, checked, leads⟩
    rw [← List.reverse_cons, ← names, List.reverse_reverse]

theorem Extends.placeOf? (h : d.Extends later) {path : String} {place : Place}
    (found : d.placeOf? path = some place) : later.placeOf? path = some place := by
  obtain ⟨parent, name, same, rfl⟩ := placeOf?_eq_some found
  obtain ⟨before, names, here, up, checked, leads⟩ := site_eq_ok same
  have leads' := h.foldlM_enter leads
  rw [← h.origin path] at leads'
  rw [Disk.placeOf?, site, checked, names, List.reverse_append]
  simp [leads', here, up, bind, Except.bind, pure, Except.pure]

/-- Where a path ends in plain names, so does the place, and directories lead down to it. -/
theorem place_of_plain {path : String} {parts : List String} {name : String} {place : Place}
    (plain : ∀ part ∈ parts, Path.IsPlain part) (last : Path.IsPlain name)
    (h : d.placeOf? (Path.join (Path.joinAll path parts) name) = some place) :
    ∃ top, d.resolve path = .ok top ∧ parts.foldlM d.enter top = .ok (top ++ parts) ∧
      place = top ++ parts ++ [name] := by
  obtain ⟨parent, name', found, rfl⟩ := placeOf?_eq_some h
  obtain ⟨before, names, -, -, -, leads⟩ := site_eq_ok found
  rw [Path.names_join _ last, Path.names_joinAll path plain] at names
  obtain ⟨rfl, same⟩ := List.append_inj' names rfl
  obtain rfl : name = name' := List.singleton_inj.1 same
  have origin : d.origin (Path.join (Path.joinAll path parts) name) = d.origin path := by
    rw [Disk.origin, Disk.origin, Path.isRooted_join _ last, Path.isRooted_joinAll path plain]
  rw [origin, List.foldlM_append] at leads
  obtain ⟨top, first, rest⟩ := bind_eq_ok.1 leads
  obtain rfl := foldlM_enter_plain plain rest
  exact ⟨top, first, rest, rfl⟩

theorem lookup_filter_ne {place other : Place} (apart : other ≠ place)
    (files : List (Place × String)) :
    (files.filter (·.1 ≠ place)).lookup other = files.lookup other := by
  induction files with
  | nil => rfl
  | cons entry files ih =>
    obtain ⟨key, contents⟩ := entry
    by_cases same : key = place
    · subst same
      rw [List.filter_cons_of_neg (by simp), ih, List.lookup_cons, beq_eq_false_iff_ne.2 apart]
    · rw [List.filter_cons_of_pos (by simpa using same), List.lookup_cons, List.lookup_cons, ih]

theorem file?_put_of_ne {place other : Place} (apart : other ≠ place) (d : Disk)
    (contents : String) : (d.put place contents).file? other = d.file? other := by
  rw [file?, put, List.lookup_cons, beq_eq_false_iff_ne.2 apart]
  exact lookup_filter_ne apart d.files

theorem writeFile_eq_ok {path contents : String} (h : d.writeFile path contents = .ok later) :
    ∃ place, d.placeOf? path = some place ∧ later = d.put place contents := by
  rw [writeFile] at h
  obtain ⟨⟨parent, name⟩, found, h⟩ := bind_eq_ok.1 h
  cases name with
  | none => exact absurd h (by simp)
  | some name =>
    simp only at h
    split_ifs at h
    exact ⟨parent ++ [name], by rw [placeOf?, found], (Except.ok.inj h).symm⟩

theorem extends_put (d : Disk) (place : Place) (contents : String) :
    d.Extends (d.put place contents) :=
  ⟨rfl, fun _ has => has⟩

/-- What a sequence of writes leaves: every path names a place, a place that none of them names is
as it was, and where no two name the same place each holds what was written. -/
structure Keeps (d : Disk) (writes : List (String × String)) (later : Disk) : Prop
    extends d.Extends later where
  placed : ∀ w ∈ writes, ∃ place, later.placeOf? w.1 = some place
  others : ∀ place, (∀ w ∈ writes, later.placeOf? w.1 ≠ some place) →
    later.file? place = d.file? place
  written : writes.Pairwise (fun v w => later.placeOf? v.1 ≠ later.placeOf? w.1) →
    ∀ w ∈ writes, ∀ place, later.placeOf? w.1 = some place → later.file? place = some w.2

theorem keeps_nil (d : Disk) : d.Keeps [] d :=
  ⟨.refl d, fun _ member => absurd member List.not_mem_nil, fun _ _ => rfl,
    fun _ _ member => absurd member List.not_mem_nil⟩

theorem Keeps.prepare {middle : Disk} {writes : List (String × String)} (first : d.Prepares middle)
    (h : middle.Keeps writes later) : d.Keeps writes later := by
  refine ⟨first.toExtends.trans h.toExtends, h.placed, fun place apart => ?_, h.written⟩
  rw [h.others place apart, file?, file?, first.files]

theorem Keeps.write {middle : Disk} {path contents : String} {writes : List (String × String)}
    (first : d.writeFile path contents = .ok middle) (h : middle.Keeps writes later) :
    d.Keeps ((path, contents) :: writes) later := by
  obtain ⟨place, found, rfl⟩ := writeFile_eq_ok first
  have extended := (extends_put d place contents).trans h.toExtends
  have stays := extended.placeOf? found
  refine ⟨extended, List.forall_mem_cons.2 ⟨⟨place, stays⟩, h.placed⟩, fun other apart => ?_,
    fun distinct => List.forall_mem_cons.2 ⟨fun other same => ?_, ?_⟩⟩
  · rw [List.forall_mem_cons] at apart
    rw [h.others other apart.2]
    refine file?_put_of_ne (fun same => apart.1 ?_) d contents
    rw [same]
    exact stays
  · obtain rfl : place = other := Option.some.inj (stays.symm.trans same)
    rw [h.others place fun w member same => (List.pairwise_cons.1 distinct).1 w member
      (stays.trans same.symm), file?_put_self]
  · exact h.written (List.pairwise_cons.1 distinct).2

end Disk

/-! ### Runs -/

namespace Plan

/-- The files that the steps of a plan write. -/
def writes (actions : List Action) : List (String × String) :=
  actions.filterMap fun
    | .writeFile path contents => some (path, contents)
    | _ => none

/-- A run in which no step fails ends as planned, with its files on the disk. -/
theorem keeps_performAll (actions : List Action) (o : Outcome Disk)
    (fine : ∀ fault, (performAll actions o).result ≠ .failed fault) :
    (performAll actions o).result = o.result ∧
      o.disk.Keeps (writes actions) (performAll actions o).disk := by
  induction actions generalizing o with
  | nil => exact ⟨rfl, Disk.keeps_nil o.disk⟩
  | cons action actions ih =>
    rw [performAll] at fine ⊢
    cases action with
    | report event => exact ih _ fine
    | print text => exact ih _ fine
    | makeDirectories path =>
      have prepares := Disk.prepares_makeDirectories o.disk path
      cases made : o.disk.makeDirectories path with
      | mk disk error =>
        rw [made] at prepares
        simp only [perform, FileSystem.makeDirectories, made] at fine ⊢
        cases error with
        | none =>
          obtain ⟨result, keeps⟩ := ih _ fine
          exact ⟨result, keeps.prepare prepares⟩
        | some e => exact absurd rfl (fine _)
    | writeFile path contents =>
      cases written : o.disk.writeFile path contents with
      | error e =>
        simp only [perform, FileSystem.writeFile, written] at fine
        exact absurd rfl (fine _)
      | ok disk =>
        simp only [perform, FileSystem.writeFile, written] at fine ⊢
        obtain ⟨result, keeps⟩ := ih _ fine
        exact ⟨result, keeps.write written⟩

end Plan

end EnumMacros
