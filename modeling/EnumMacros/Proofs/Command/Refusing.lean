import EnumMacros.Command.Interface
import EnumMacros.Generate
import Mathlib.Tactic.SplitIfs

/-! Requests that are refused. Whatever is wrong with the arguments of a generation, or with the job
that they ask for, is found before a file is touched, and none of it is called a failure to write:
the code of such a failure stands for a step of a run alone. -/

namespace EnumMacros

/-- The code of the failures to write. -/
def Fault.writeCode : String := "E0005"

/-- A result that is no failure to write: what is wrong, if anything, is the request. -/
def OnRequest {α : Type} (x : Except Fault α) : Prop :=
  ∀ fault, x = .error fault → fault.code ≠ Fault.writeCode

section OnRequest

variable {α β : Type}

theorem onRequest_ok (a : α) : OnRequest (.ok a : Except Fault α) := nofun

theorem onRequest_error {fault : Fault} (h : fault.code ≠ Fault.writeCode) :
    OnRequest (.error fault : Except Fault α) := by
  intro other same
  rwa [← Except.error.inj same]

theorem OnRequest.bind {x : Except Fault α} {f : α → Except Fault β} (h : OnRequest x)
    (rest : ∀ a, OnRequest (f a)) : OnRequest (x >>= f) := by
  cases x with
  | error fault => exact onRequest_error (h fault rfl)
  | ok a => exact rest a

theorem OnRequest.map {x : Except Fault α} (h : OnRequest x) (f : α → β) :
    OnRequest (x.map f) := by
  cases x with
  | error fault => exact onRequest_error (h fault rfl)
  | ok a => exact onRequest_ok (f a)

theorem OnRequest.mapM {f : α → Except Fault β} (h : ∀ a, OnRequest (f a)) (as : List α) :
    OnRequest (as.mapM f) := by
  induction as with
  | nil => exact onRequest_ok []
  | cons a as ih =>
    rw [List.mapM_cons]
    exact (h a).bind fun _ => ih.bind fun _ => onRequest_ok _

end OnRequest

theorem Request.onRequest_parse (text : String) : OnRequest (parse text) := by
  have unreadable {α : Type} : OnRequest (.error (.unreadableRange text) : Except Fault α) :=
    onRequest_error (show "E0002" ≠ "E0005" by decide)
  rw [parse, ofSides.eq_def]
  split
  · split
    · exact onRequest_ok _
    · exact unreadable
  · split
    · exact unreadable
    · split_ifs
      · exact onRequest_ok _
      · split
        · exact unreadable
        · split_ifs
          · exact onRequest_error (show "E0002" ≠ "E0005" by decide)
          · exact onRequest_ok _

theorem Selection.onRequest_parse (list : String) : OnRequest (parse list) := by
  have family (name : String) : OnRequest (Family.parse name) := by
    rw [Family.parse]
    split_ifs
    · exact onRequest_ok _
    · exact onRequest_ok _
    · exact onRequest_error (show "E0003" ≠ "E0005" by decide)
  refine (OnRequest.mapM family _).bind fun families => ?_
  dsimp only
  split_ifs
  · exact onRequest_error (show "E0003" ≠ "E0005" by decide)
  · exact onRequest_ok _

theorem Template.onRequest_parse (source : String) : OnRequest (parse source) := by
  rw [parse]
  split
  · exact onRequest_ok _
  · exact onRequest_error (show "E0006" ≠ "E0005" by decide)

theorem Template.onRequest_checkReferences (t : Template) (allowed : List String) :
    OnRequest (t.checkReferences allowed) := by
  rw [checkReferences]
  split
  · exact onRequest_error (show "E0006" ≠ "E0005" by decide)
  · exact onRequest_ok _

theorem Style.onRequest_checkTemplate (t : Template) : OnRequest (checkTemplate t) := by
  refine (t.onRequest_checkReferences _).bind fun _ => ?_
  rw [checkName]
  split_ifs
  · exact onRequest_ok _
  · exact onRequest_error (show "E0007" ≠ "E0005" by decide)

theorem Style.onRequest_named (distinctName enumName : String) :
    OnRequest (named distinctName enumName) :=
  (Template.onRequest_parse distinctName).bind fun d =>
    (Template.onRequest_parse enumName).bind fun e =>
      (onRequest_checkTemplate d).bind fun _ =>
        (onRequest_checkTemplate e).bind fun _ => onRequest_ok _

theorem Assertion.onRequest_make (extent : AssertExtent) (message : Option String) :
    OnRequest (make extent message) :=
  (Template.onRequest_parse _).bind fun t =>
    (t.onRequest_checkReferences _).bind fun _ => onRequest_ok _

/-- A job is refused for its families or its output, but not for what cannot be written. -/
theorem Job.onRequest_plan (job : Job) : OnRequest job.plan := by
  have check : OnRequest job.check := by
    rw [check]
    split
    · exact onRequest_error (show "E0003" ≠ "E0005" by decide)
    · split
      · exact onRequest_ok _
      · split_ifs
        · exact onRequest_error (show "E0004" ≠ "E0005" by decide)
        · exact onRequest_ok _
  refine check.bind fun _ => ?_
  split
  · exact onRequest_ok _
  · exact onRequest_ok _

namespace Command

theorem onRequest_optionNumber (r : Reading) (name : String) : OnRequest (optionNumber r name) := by
  rw [optionNumber]
  split
  · exact onRequest_ok _
  · exact onRequest_error (show "E0008" ≠ "E0005" by decide)

theorem onRequest_treeOf (r : Reading) (path : String) : OnRequest (treeOf r path) := by
  refine (onRequest_optionNumber r _).bind fun sizeCap => ?_
  refine (onRequest_optionNumber r _).bind fun groupLength => ?_
  split_ifs
  · exact onRequest_error (show "E0008" ≠ "E0005" by decide)
  · exact onRequest_ok _

theorem onRequest_outputOf (r : Reading) : OnRequest (outputOf r) := by
  rw [outputOf]
  split
  · exact (onRequest_treeOf r _).bind fun _ => onRequest_ok _
  · dsimp only
    split_ifs
    · refine ((onRequest_optionNumber r _).map some).bind fun cap => ?_
      split
      · exact onRequest_ok _
      · exact onRequest_ok _
    · rw [pure_bind]
      split
      · exact onRequest_ok _
      · exact onRequest_ok _

theorem onRequest_jobOf (r : Reading) : OnRequest (jobOf r) := by
  refine (Request.onRequest_parse _).bind fun range => ?_
  refine (Selection.onRequest_parse _).bind fun families => ?_
  have style : OnRequest (styleOf r) :=
    (Style.onRequest_named _ _).bind fun _ =>
      (Assertion.onRequest_make _ _).bind fun _ => onRequest_ok _
  exact style.bind fun _ => (onRequest_outputOf r).bind fun _ => onRequest_ok _

end Command

end EnumMacros
