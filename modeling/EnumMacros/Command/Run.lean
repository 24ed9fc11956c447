import EnumMacros.Command.Interface
import EnumMacros.Fault.Report
import EnumMacros.Generate
import EnumMacros.Identifier.Allocator
import EnumMacros.Log.Filter

/-! What an invocation does on a file system: what it prints and reports, and how it ends. -/

namespace EnumMacros.Command

inductive Failure
  | fault (fault : Fault)
  | sizesExhausted
  | settingCut
  deriving Repr, DecidableEq

structure Execution (σ : Type) where
  disk : σ
  printed : String
  events : List Event
  failure : Option Failure
  deriving Repr, DecidableEq

structure Process (σ : Type) where
  exit : Nat
  printed : String
  errors : String
  disk : σ
  deriving Repr, DecidableEq

/-- Indices are read as whole numbers of 64 bits. -/
def indexBound : Nat := 0x8000000000000000

/-- The identifiers at the indices in order, up to the first that is no index. -/
def identifiersAt (a : Identifier.Allocator) : List String → List String × Option Fault
  | [] => ([], none)
  | text :: texts =>
    match Text.readSigned indexBound text.toList with
    | none => ([], some (.unusableNumber "INDEX" text))
    | some i =>
      match a.take? i with
      | (none, _) => ([], some (.negativeIndex i))
      | (some name, after) =>
        let (names, fault) := identifiersAt after texts
        (name :: names, fault)

/-- The allocator for the identifiers that are printed. -/
def identifierSource (allowKeywords : Bool) : Identifier.Allocator :=
  if allowKeywords then .unrestricted else .avoidingKeywords

/-- What is printed for a name: its raw index, or a dash. -/
def rawIndexText (name : String) : String :=
  ((Identifier.rawIndex? name).map Text.decimal).getD "-"

def onLines (texts : List String) : String := String.join (texts.map (· ++ "\n"))

/-- The hint for arguments that break the rules. -/
def usage : String :=
  "USAGE:\n    uniqenum [-v] generate [OPTIONS] <RANGE>\n" ++
  "    uniqenum [-v] tools ident [--allow-keywords] <INDEX>...\n" ++
  "    uniqenum [-v] tools antecedent <NAME>...\n"

def Failure.exit : Failure → Nat
  | fault _ => 1
  | sizesExhausted | settingCut => 101

def Failure.text : Failure → String
  | fault f => f.diagnostic
  | sizesExhausted => "the sizes are exhausted\n"
  | settingCut => "a piece of the log setting begins or ends inside a character\n"

/-- The process of an execution, under a log filter. -/
def Execution.process {σ : Type} (execution : Execution σ) (filter : LogFilter) : Process σ where
  exit := (execution.failure.map Failure.exit).getD 0
  printed := execution.printed
  errors := filter.log execution.events ++ (execution.failure.map Failure.text).getD ""
  disk := execution.disk

variable {σ : Type} [FileSystem σ]

/-- Generates macros; a run that is done reports so. -/
def generate (job : Job) (disk : σ) : Execution σ :=
  match job.plan with
  | .error fault => ⟨disk, "", [], some (.fault fault)⟩
  | .ok plan =>
    let outcome := plan.run disk
    match outcome.result with
    | .finished summary =>
      ⟨outcome.disk, outcome.printed, outcome.events ++ [.finished summary], none⟩
    | .failed fault => ⟨outcome.disk, outcome.printed, outcome.events, some (.fault fault)⟩
    | .sizesExhausted => ⟨outcome.disk, outcome.printed, outcome.events, some .sizesExhausted⟩

def Target.execute (target : Target) (disk : σ) : Execution σ :=
  match target with
  | .generate job => Command.generate job disk
  | .identifiers indices allowKeywords =>
    let (names, fault) := identifiersAt (identifierSource allowKeywords) indices
    ⟨disk, onLines names, [], fault.map .fault⟩
  | .rawIndices names => ⟨disk, onLines (names.map rawIndexText), [], none⟩

/-- The process for some arguments, under a log setting. -/
def process (args : List String) (setting : Option String) (disk : σ) : Process σ :=
  match parse args with
  | .error .misuse => ⟨1, "", usage, disk⟩
  | .error .help => ⟨0, usage, "", disk⟩
  | .error (.version text) => ⟨0, text, "", disk⟩
  | .ok (.error fault) => ⟨1, "", fault.diagnostic, disk⟩
  | .ok (.ok invocation) =>
    match LogFilter.choose setting invocation.verbose with
    | none => ⟨Failure.settingCut.exit, "", Failure.settingCut.text, disk⟩
    | some filter => (invocation.target.execute disk).process filter

end EnumMacros.Command
