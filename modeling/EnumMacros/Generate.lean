import EnumMacros.Header.Single
import EnumMacros.Header.Tree

/-! The plan of a generation job. -/

namespace EnumMacros.Job

/-- The sizes to write into a single header, with the events and the composer after finding them
out. An open range ends where the cap is reached; a bounded one is written in full, and its end is
only compared with the cap. -/
def singleSpan (job : Job) (c : Composer) : Option Span × List Event × Composer :=
  match job.headerCap with
  | none => (job.range.last.bind (Span.of? job.range.first), [], c)
  | some cap =>
    let fit := Single.fit c job.guardStyle job.selected job.range cap
    match job.range.last with
    | some last =>
      let warnings :=
        if fit.last = some last then [] else [.capExceeded cap job.range.first last]
      (Span.of? job.range.first last, fit.events ++ warnings, fit.composer)
    | none =>
      let warnings := if fit.last.isNone then [.nothingFits job.range.first cap] else []
      (fit.last.bind (Span.of? job.range.first), fit.events ++ warnings, fit.composer)

/-- The steps before a file can be written: its directory is made, if the path has one. -/
def prepare (path : String) : List Action :=
  match Path.parent? path with
  | some parent => if parent.isEmpty then [] else [.makeDirectories parent]
  | none => []

/-- The steps that put a single header where it goes, and the summary. -/
def singleActions (header : Single) : Output → List Action × Summary
  | .file path =>
    (prepare path ++ [.writeFile path header.text] ++ header.events.map .report ++
      [.report (.wroteFile path)], { header.summary with files := [path] })
  | _ => (.print header.text :: header.events.map .report, header.summary)

def singlePlan (job : Job) : Plan :=
  match job.singleSpan (.start job.style) with
  | (none, events, _) => ⟨events.map .report, .finished .empty⟩
  | (some span, events, c) =>
    let (actions, summary) :=
      singleActions (Single.make c job.guardStyle job.selected span) job.output
    ⟨events.map .report ++ actions, .finished summary⟩

/-- The plan of a job, unless the job is refused. -/
def plan (job : Job) : Except Fault Plan := do
  job.check
  match job.output with
  | .tree output =>
    return Tree.plan output job.guardStyle job.selected job.range (.start job.style)
  | _ => return job.singlePlan

end EnumMacros.Job
