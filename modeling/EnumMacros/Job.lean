import EnumMacros.Size.Span
import EnumMacros.Style

/-! A generation job: which macros to generate, in which style, and where to put them. -/

namespace EnumMacros

/-- How a header is kept from being read twice. -/
inductive GuardStyle
  /-- By a macro of its own. -/
  | classic
  /-- By a pragma. -/
  | pragmaOnce
  /-- Not at all. -/
  | unguarded
  deriving Repr, BEq, DecidableEq

namespace GuardStyle

def word : GuardStyle → String
  | classic => "classic"
  | pragmaOnce => "pragma-once"
  | unguarded => "omit"

def ofWord? : String → Option GuardStyle
  | "classic" => some classic
  | "pragma-once" => some pragmaOnce
  | "omit" => some unguarded
  | _ => none

/-- The complaint about a word that stands for no style. -/
def unknownWord (word : String) : String := "unknown include guard style `" ++ word ++ "`"

end GuardStyle

/-- A tree of headers: the directory that holds it, the size above which no header is to grow, and
the number of digits that a level of nested directories stands for. -/
structure TreeOutput where
  path : String
  sizeCap : Nat
  groupLength : Nat
  deriving Repr, BEq, DecidableEq

namespace TreeOutput

def defaultSizeCap : Nat := 256 * 1024

/-- The digits of a level where no number is given. -/
def defaultGroupLength : Nat := 2

end TreeOutput

inductive Output
  | stdout
  | file (path : String)
  | tree (output : TreeOutput)
  deriving Repr, BEq, DecidableEq

def Output.kind : Output → String
  | stdout => "stdout"
  | file _ => "file"
  | tree _ => "directory"

/-- A job. The cap on a single header is apart from the one of a tree. -/
structure Job where
  range : Request
  families : Selection
  dependencies : Dependencies
  guardStyle : GuardStyle
  style : Style
  output : Output
  headerCap : Option Nat
  deriving Repr, DecidableEq

namespace Job

/-- The families to generate: the selected ones and what they call. -/
def selected (job : Job) : Selection := job.families.completed job.dependencies

/-- Refuses a job without a family, and an open range that nothing would cut. -/
def check (job : Job) : Except Fault Unit :=
  if job.families.isEmpty then .error .noFamily
  else
    match job.output with
    | .tree _ => .ok ()
    | output =>
      if !job.range.hasEnd && job.headerCap.isNone then .error (.unboundedOutput output.kind)
      else .ok ()

end Job

end EnumMacros
