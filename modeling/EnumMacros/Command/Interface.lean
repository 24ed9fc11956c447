import EnumMacros.Command.Grammar
import EnumMacros.Job

/-! The commands of the program: generating macros for a range of sizes, and two tools that look
into the identifiers they are made of. -/

namespace EnumMacros.Command

inductive Target
  /-- Generate macros. -/
  | generate (job : Job)
  /-- Print the identifiers at some indices. -/
  | identifiers (indices : List String) (allowKeywords : Bool)
  /-- Print the raw indices of some names. -/
  | rawIndices (names : List String)
  deriving Repr, DecidableEq

/-- A well-formed invocation. -/
structure Invocation where
  target : Target
  verbose : Bool
  deriving Repr, DecidableEq

/-- The option that reports progress; every level takes it. -/
def verboseSwitch : Switch := .flag "verbose" (some 'v')

def rootLevel : Level :=
  { title := "uniqenum", version := "0.1.0", switches := [verboseSwitch], conflicts := []
    arity := .none, takesNumbers := false, commands := ["generate", "tools"] }

def generateLevel : Level :=
  { title := "uniqenum-generate", version := ""
    switches :=
      [verboseSwitch,
        .valued "macros" none (some "areuniq,uniqenum"),
        .flag "no-dependencies" none,
        .valued "output" (some 'o') none,
        .valued "directory" (some 'd') none,
        .valued "max-file-size" none (some (Text.decimal TreeOutput.defaultSizeCap)),
        .valued "prefix-length" none (some (Text.decimal TreeOutput.defaultGroupLength)),
        .chosen "include-guard" "classic" ["classic", "pragma-once", "omit"],
        .valued "areuniq-name" none (some (Style.defaultName .distinct)),
        .valued "uniqenum-name" none (some (Style.defaultName .enum)),
        .chosen "assert" "once" ["once", "all"],
        .valued "assert-message" none none,
        .flag "avoid-keywords" none]
    conflicts := [("output", "directory")]
    arity := .one, takesNumbers := false, commands := [] }

def toolsLevel : Level :=
  { title := "uniqenum-tools", version := "", switches := [verboseSwitch], conflicts := []
    arity := .none, takesNumbers := false, commands := ["ident", "antecedent"] }

/-- Identifiers at indices, which may be negative numbers by mistake. -/
def identifiersLevel : Level :=
  { title := "uniqenum-tools-ident", version := ""
    switches := [verboseSwitch, .flag "allow-keywords" none], conflicts := []
    arity := .some, takesNumbers := true, commands := [] }

def rawIndicesLevel : Level :=
  { title := "uniqenum-tools-antecedent", version := "", switches := [verboseSwitch]
    conflicts := [], arity := .some, takesNumbers := false, commands := [] }

/-- Numbers given on the command line lie below this bound. -/
def numberLimit : Nat := 0x10000000000000000

/-- The value of an option of the generation; an option without one counts as empty. -/
def optionValue (r : Reading) (name : String) : String := (generateLevel.value r name).getD ""

def optionNumber (r : Reading) (name : String) : Except Fault Nat :=
  let text := optionValue r name
  match Text.readBelow numberLimit text.toList with
  | some n => .ok n
  | none => .error (.unusableNumber name text)

def styleOf (r : Reading) : Except Fault Style := do
  let style ← Style.named (optionValue r "areuniq-name") (optionValue r "uniqenum-name")
  let extent := (AssertExtent.ofWord? (optionValue r "assert")).getD .once
  let assertion ← Assertion.make extent (generateLevel.value r "assert-message")
  return { style with assertion, avoidKeywords := r.has "avoid-keywords" }

/-- The tree of headers that the options ask for. -/
def treeOf (r : Reading) (path : String) : Except Fault TreeOutput := do
  let sizeCap ← optionNumber r "max-file-size"
  let groupLength ← optionNumber r "prefix-length"
  if groupLength = 0 then .error (.unusableNumber "prefix-length" "0")
  else return { path, sizeCap, groupLength }

/-- The output that the options ask for, with the cap on a single header, which has none unless it
is given. -/
def outputOf (r : Reading) : Except Fault (Output × Option Nat) := do
  match generateLevel.value r "directory" with
  | some path => return (.tree (← treeOf r path), none)
  | none =>
    let cap ← if r.has "max-file-size" then some <$> optionNumber r "max-file-size" else pure none
    match generateLevel.value r "output" with
    | some path => return (.file path, cap)
    | none => return (.stdout, cap)

/-- The job that the arguments of a generation ask for. -/
def jobOf (r : Reading) : Except Fault Job := do
  let range ← Request.parse (r.others.headD "")
  let families ← Selection.parse (optionValue r "macros")
  let dependencies := if r.has "no-dependencies" then Dependencies.omitted else .added
  let guardStyle := (GuardStyle.ofWord? (optionValue r "include-guard")).getD .classic
  let style ← styleOf r
  let (output, headerCap) ← outputOf r
  return { range, families, dependencies, guardStyle, style, output, headerCap }

/-- Reads the arguments of a level that has no commands below it. -/
def readLast (level : Level) (args : List String) : Except Stop Reading := do
  let (r, _) ← level.read .start args
  if level.fits r then .ok r else .error .misuse

def commandsBelow (name : String) : List String :=
  if name = "tools" then toolsLevel.commands else []

/-- Help on the command that some names lead down to, from a choice of commands for the first. -/
def helpOn (commands : List String) : List String → Stop
  | [] => .help
  | name :: names => if commands.contains name then helpOn (commandsBelow name) names else .misuse

/-- Reads the arguments of a level that needs a command, and those of the command. -/
def readThrough {α : Type} (level : Level) (args : List String)
    (command : String → List String → Except Stop α) : Except Stop (Reading × α) := do
  match ← level.read .start args with
  | (_, none) => .error .misuse
  | (r, some (name, rest)) =>
    if name = helpName then .error (helpOn level.everyCommand rest)
    else
      let below ← command name rest
      if level.fits r then .ok (r, below) else .error .misuse

inductive Subcommand
  | generate (r : Reading)
  | ident (r : Reading)
  | antecedent (r : Reading)
  deriving Repr, DecidableEq

namespace Subcommand

def ofTool (name : String) (args : List String) : Except Stop Subcommand :=
  if name = "ident" then (readLast identifiersLevel args).map ident
  else (readLast rawIndicesLevel args).map antecedent

/-- Reads the arguments of a command, and tells whether the levels above it ask for reports. -/
def ofName (name : String) (args : List String) : Except Stop (Subcommand × Bool) := do
  if name = "generate" then return (generate (← readLast generateLevel args), false)
  else
    let (r, command) ← readThrough toolsLevel args ofTool
    return (command, r.has verboseSwitch.name)

def isVerbose : Subcommand → Bool
  | generate r | ident r | antecedent r => r.has verboseSwitch.name

def target : Subcommand → Except Fault Target
  | generate r => (jobOf r).map .generate
  | ident r => .ok (.identifiers r.others (r.has "allow-keywords"))
  | antecedent r => .ok (.rawIndices r.others)

end Subcommand

/-- Reads the arguments of the program. They are read to the end before anything that they ask for
is looked at. -/
def parse (args : List String) : Except Stop (Except Fault Invocation) := do
  let (r, command, above) ← readThrough rootLevel args Subcommand.ofName
  let verbose := r.has verboseSwitch.name || above || command.isVerbose
  return command.target.map fun target => { target, verbose }

end EnumMacros.Command
