import EnumMacros.Text.Numeral

/-! Command line arguments. A level of commands knows its options, what else it takes, and the
commands of the level below. An option has a long name and may have a short one; its value follows
in the same argument or the next one. An argument that starts with a dash is an option or an error,
save for a dash alone and for everything after `--`; a level may take numbers that start with one.
A level with commands has one more, which gives help on them.
-/

namespace EnumMacros.Command

/-- An option: its names, and for one with a value, the value where none is given and those it may
have. No choices leave the value free. -/
structure Switch where
  name : String
  short : Option Char
  takesValue : Bool
  initial : Option String
  choices : List String
  deriving Repr, DecidableEq

namespace Switch

def flag (name : String) (short : Option Char) : Switch := ⟨name, short, false, none, []⟩

def valued (name : String) (short : Option Char) (initial : Option String) : Switch :=
  ⟨name, short, true, initial, []⟩

def chosen (name initial : String) (choices : List String) : Switch :=
  ⟨name, none, true, some initial, choices⟩

end Switch

/-- How many arguments a level takes besides its options. -/
inductive Arity
  | none
  | one
  | some
  deriving Repr, DecidableEq

structure Level where
  title : String
  version : String
  switches : List Switch
  conflicts : List (String × String)
  arity : Arity
  takesNumbers : Bool
  commands : List String
  deriving Repr, DecidableEq

/-- Why arguments are not carried out as a command. -/
inductive Stop
  /-- They break the rules of the command line. -/
  | misuse
  /-- They ask for help. -/
  | help
  /-- They ask for the version, which is this line. -/
  | version (text : String)
  deriving Repr, DecidableEq

/-- What has been read of a level: the options in order with their values, the other arguments, the
option whose value is to come, and whether only other arguments may follow. -/
structure Reading where
  found : List (String × Option String)
  others : List String
  pending : Option String
  closed : Bool
  deriving Repr, DecidableEq

namespace Reading

def start : Reading := ⟨[], [], none, false⟩

def enter (r : Reading) (name : String) (value : Option String) : Reading :=
  { r with found := r.found ++ [(name, value)], pending := none }

def settle (r : Reading) : Reading :=
  match r.pending with
  | none => r
  | some name => r.enter name none

def await (r : Reading) (name : String) : Reading := { r with pending := some name }

def count (r : Reading) (name : String) : Nat := r.found.countP (·.1 == name)

def has (r : Reading) (name : String) : Bool := 0 < r.count name

/-- The value of an option: the one given, or the one for where none is. -/
def value? (r : Reading) (s : Switch) : Option String :=
  ((r.found.lookup s.name).join).or s.initial

end Reading

/-- Whether an argument starts like an option: with a dash that is not all of it. -/
def startsOption (arg : String) : Bool :=
  match arg.toList with
  | '-' :: _ :: _ => true
  | _ => false

/-- Whether an argument starts like a long option. -/
def startsLong (arg : String) : Bool :=
  match arg.toList with
  | '-' :: '-' :: _ => true
  | _ => false

/-- The command that gives help on the others of its level. -/
def helpName : String := "help"

namespace Level

/-- The commands of the level, with the one for help. -/
def everyCommand (level : Level) : List String :=
  if level.commands.isEmpty then [] else level.commands ++ [helpName]

/-- Whether the level looks at an argument as an option: it starts like one, and is no number that
the level takes. -/
def seesOption (level : Level) (arg : String) : Bool :=
  startsOption arg && !(level.takesNumbers && Text.isNumber arg.toList)

def versionLine (level : Level) : String := level.title ++ " " ++ level.version ++ "\n"

def takeOther (level : Level) (r : Reading) (arg : String) : Except Stop Reading :=
  match level.arity with
  | .none => .error .misuse
  | .one => if r.others.isEmpty then .ok { r with others := [arg] } else .error .misuse
  | .some => .ok { r with others := r.others ++ [arg] }

/-- Enters the options whose short names stand together in one argument. One with a value takes the
rest of the argument, if there is any. -/
def takeShorts (level : Level) (r : Reading) : List Char → Except Stop Reading
  | [] => .ok r
  | c :: cs =>
    match level.switches.find? (·.short == some c) with
    | some s =>
      if s.takesValue then
        if cs.isEmpty then .ok (r.await s.name)
        else .ok (r.enter s.name (some (String.ofList (cs.dropWhile (· == '=')))))
      else takeShorts level (r.enter s.name none) cs
    | none =>
      if c = 'h' then .error .help
      else if c = 'V' then .error (.version level.versionLine)
      else .error .misuse

/-- Enters an option given by its long name, which an equals sign parts from a value. -/
def takeLong (level : Level) (r : Reading) (arg : String) : Except Stop Reading :=
  let (name, assigned) := (arg.toList.dropWhile (· == '-')).span (· != '=')
  let name := String.ofList name
  match level.switches.find? (·.name == name) with
  | some s =>
    if s.takesValue then
      match assigned with
      | [] => .ok (r.await s.name)
      | _ => .ok (r.enter s.name (some (String.ofList (assigned.dropWhile (· == '=')))))
    else .ok (r.enter s.name none)
  | none =>
    if name = "help" then .error .help
    else if name = "version" then .error (.version level.versionLine)
    else .error .misuse

/-- Enters one argument. An option takes the place of a value that was to come. -/
def takeArgument (level : Level) (r : Reading) (arg : String) : Except Stop Reading :=
  if r.closed then level.takeOther r arg
  else if level.seesOption arg then
    let r := r.settle
    if arg = "--" then .ok { r with closed := true }
    else if startsLong arg then level.takeLong r arg
    else level.takeShorts r (arg.toList.drop 1)
  else
    match r.pending with
    | some name => .ok (r.enter name (some arg))
    | none => level.takeOther r arg

/-- Reads the arguments of a level up to a command, which is given with the arguments after it. -/
def read (level : Level) (r : Reading) :
    List String → Except Stop (Reading × Option (String × List String))
  | [] => .ok (r.settle, none)
  | arg :: args =>
    if !r.closed && r.pending.isNone && level.everyCommand.contains arg then
      .ok (r, some (arg, args))
    else
      match level.takeArgument r arg with
      | .ok after => read level after args
      | .error stop => .error stop

/-- Whether an option is used as it should be: once at most, and with a value that it takes. -/
def switchFits (r : Reading) (s : Switch) : Bool :=
  r.count s.name ≤ 1 &&
    (!(s.takesValue && r.has s.name) ||
      (r.value? s).any fun value => s.choices.isEmpty || s.choices.contains value)

/-- Whether the arguments of a level keep its rules. -/
def fits (level : Level) (r : Reading) : Bool :=
  level.switches.all (switchFits r) &&
    level.conflicts.all (fun (a, b) => !(r.has a && r.has b)) &&
    (level.arity == .none || !r.others.isEmpty)

def value (level : Level) (r : Reading) (name : String) : Option String :=
  (level.switches.find? (·.name == name)).bind r.value?

end Level

end EnumMacros.Command
