import EnumMacros.Command.Run

/-! The program: it carries out the plan of an invocation on the files of the system. -/

namespace EnumMacros.Program

open Command

/-- The number of a system error, with its words. -/
def systemError? : IO.Error → Option (UInt32 × String)
  | .alreadyExists _ code details | .noFileOrDirectory _ code details
  | .permissionDenied _ code details | .resourceExhausted _ code details
  | .inappropriateType _ code details | .noSuchThing _ code details
  | .invalidArgument _ code details | .interrupted _ code details
  | .otherError code details | .resourceBusy code details | .resourceVanished code details
  | .unsupportedOperation code details | .hardwareFault code details
  | .unsatisfiedConstraints code details | .illegalOperation code details
  | .protocolError code details | .timeExpired code details => some (code, details)
  | .unexpectedEof | .userError _ => none

/-- What is told of a failed step: the system's words and number. -/
def errorText (e : IO.Error) : String :=
  match systemError? e with
  | some (code, details) => details ++ " (os error " ++ toString code ++ ")"
  | none => toString e

/-- Whether an error says that something is missing. -/
def saysMissing (e : IO.Error) : Bool := (systemError? e).any (·.1 == 2)

def isDirectory (path : String) : IO Bool := do
  try
    (← IO.FS.realPath path).isDir
  catch _ => return false

def makeDirectory (path : String) : IO (Option IO.Error) := do
  try
    IO.FS.createDir path
    return none
  catch e => return some e

/-- Makes a directory and every directory on the way to it that is missing. -/
def makeDirectories (path : String) : IO (Option IO.Error) := do
  if path.isEmpty then return none
  match ← makeDirectory path with
  | none => return none
  | some e =>
    if saysMissing e then
      match _h : Path.parent? path with
      | none => return some e
      | some before =>
        match ← makeDirectories before with
        | some e => return some e
        | none =>
          match ← makeDirectory path with
          | none => return none
          | some e => return if ← isDirectory path then none else some e
    else return if ← isDirectory path then none else some e
termination_by path.length
decreasing_by exact Path.length_parent? _h

/-- Performs a step; gives the fault when it fails. -/
def perform (filter : LogFilter) : Action → IO (Option Fault)
  | .report event => do
    IO.eprint (filter.log [event])
    return none
  | .print text => do
    try
      IO.print text
      return none
    catch e => return some (.closedOutput (errorText e))
  | .makeDirectories path => do
    return (← makeDirectories path).map fun e => .unwritable path (errorText e)
  | .writeFile path contents => do
    try
      IO.FS.writeFile path contents
      return none
    catch e => return some (.unwritable path (errorText e))

def performAll (filter : LogFilter) : List Action → IO (Option Fault)
  | [] => return none
  | action :: actions => do
    match ← perform filter action with
    | none => performAll filter actions
    | some fault => return some fault

def fail (failure : Failure) : IO UInt32 := do
  IO.eprint failure.text
  return failure.exit.toUInt32

def generate (filter : LogFilter) (job : Job) : IO UInt32 := do
  match job.plan with
  | .error fault => fail (.fault fault)
  | .ok plan =>
    match ← performAll filter plan.actions with
    | some fault => fail (.fault fault)
    | none =>
      match plan.ending with
      | .sizesExhausted => fail .sizesExhausted
      | .finished summary =>
        IO.eprint (filter.log [.finished summary])
        return 0

def answer (execution : Execution Disk) : IO UInt32 := do
  IO.print execution.printed
  match execution.failure with
  | some failure => fail failure
  | none => return 0

/-- Carries out the arguments of the command line. -/
def run (args : List String) : IO UInt32 := do
  match parse args with
  | .error .misuse => do
    IO.eprint usage
    return 1
  | .error .help => do
    IO.print usage
    return 0
  | .error (.version text) => do
    IO.print text
    return 0
  | .ok (.error fault) => fail (.fault fault)
  | .ok (.ok invocation) =>
    match LogFilter.choose (← IO.getEnv "UNIQENUM_LOG") invocation.verbose with
    | none => fail .settingCut
    | some filter =>
      match invocation.target with
      | .generate job => generate filter job
      | target => answer (target.execute Disk.blank)

end EnumMacros.Program

def main (args : List String) : IO UInt32 := EnumMacros.Program.run args
