import EnumMacros.Family
import EnumMacros.Size.Span

/-! What a run has written, and the events that it reports on its way. A line of the log holds the
level, the message, and the fields of the event in order. -/

namespace EnumMacros

/-- The sizes written of each family, and the files in the order in which they were created. -/
structure Summary where
  distinct : Option Span
  enum : Option Span
  files : List String
  deriving Repr, BEq, DecidableEq

namespace Summary

def empty : Summary := ⟨none, none, []⟩

def setSpan (s : Summary) (span : Option Span) : Family → Summary
  | .distinct => { s with distinct := span }
  | .enum => { s with enum := span }

end Summary

/-- The weight of an event, the heaviest first. -/
inductive Level
  | error
  | warn
  | info
  | debug
  | trace
  deriving Repr, BEq, DecidableEq

namespace Level

/-- The level's place, counted from the heaviest. -/
def depth : Level → Nat
  | error => 1
  | warn => 2
  | info => 3
  | debug => 4
  | trace => 5

/-- The level in five columns. -/
def column : Level → String
  | error => "ERROR"
  | warn => " WARN"
  | info => " INFO"
  | debug => "DEBUG"
  | trace => "TRACE"

end Level

/-- A part of the program that reports events. -/
inductive Reporter
  /-- The command line. -/
  | command
  /-- Generation as a whole. -/
  | generation
  /-- The single header. -/
  | single
  /-- The tree of headers. -/
  | tree
  /-- The composer of definitions. -/
  | composer
  deriving Repr, DecidableEq

/-- The name by which log settings know a part of the program. -/
def Reporter.name : Reporter → String
  | command => "uniqenum_cli"
  | generation => "uniqenum_c_target"
  | single => "uniqenum_c_target::flat"
  | tree => "uniqenum_c_target::directory"
  | composer => "uniqenum_c_target::printer"

inductive Event
  /-- From this size on, calling smaller checks is shorter. -/
  | callsShorter (n : Nat)
  /-- A definition goes into a header, of its own or of a tree. -/
  | writing (reporter : Reporter) (family : Family) (n size : Nat)
  /-- A family is done, in a header of its own or in a tree. -/
  | generated (reporter : Reporter) (family : Family) (span : Span)
  /-- A single header has been written to a file. -/
  | wroteFile (path : String)
  /-- A header of a tree has been written. -/
  | wroteHeader (path : String) (size : Nat)
  /-- Not even the first size of an open range fits into a single header. -/
  | nothingFits (n cap : Nat)
  /-- A single header of a bounded range grows past its cap. -/
  | capExceeded (cap first last : Nat)
  /-- An open range of a tree ends before a macro that does not fit into a header. -/
  | stopping (family : Family) (n cap : Nat)
  /-- A macro that does not fit into a header gets one of its own. -/
  | writingAlone (family : Family) (n cap : Nat)
  /-- The run is done. -/
  | finished (summary : Summary)
  deriving Repr, DecidableEq

namespace Event

/-- The part of the program that reports the event. -/
def reporter : Event → Reporter
  | callsShorter _ => .composer
  | writing reporter .. | generated reporter .. => reporter
  | wroteFile _ | nothingFits .. | capExceeded .. => .generation
  | wroteHeader .. | stopping .. | writingAlone .. => .tree
  | finished _ => .command

def level : Event → Level
  | callsShorter _ | writing .. => .debug
  | generated .. | wroteFile _ | wroteHeader .. | finished _ => .info
  | nothingFits .. | capExceeded .. | stopping .. | writingAlone .. => .warn

def message : Event → String
  | callsShorter _ => "clique form of `areuniq` is shorter from here on"
  | writing .. => "writing macro"
  | generated .. => "generated macros"
  | wroteFile _ | wroteHeader .. => "wrote header"
  | nothingFits .. | stopping .. => "macro does not fit into a header, stopping"
  | capExceeded .. => "header will exceed the size cap, writing every macro anyway"
  | writingAlone .. => "macro does not fit into a header, writing it alone"
  | finished _ => "generation finished"

/-- A span that may be missing, as a record. -/
def spanRecord : Option Span → String
  | none => "None"
  | some span => "Some(" ++ span.record ++ ")"

def fields : Event → List (String × String)
  | callsShorter n => [("n", Text.decimal n)]
  | writing _ family n size =>
    [("family", family.word), ("n", Text.decimal n), ("size", Text.decimal size)]
  | generated _ family span => [("family", family.word), ("range", span.text)]
  | wroteFile path => [("path", path)]
  | wroteHeader path size => [("path", path), ("size", Text.decimal size)]
  | nothingFits n cap => [("n", Text.decimal n), ("max_file_size", Text.decimal cap)]
  | capExceeded cap first last =>
    [("max_file_size", Text.decimal cap), ("start", Text.decimal first),
      ("end", Text.decimal last)]
  | stopping family n cap | writingAlone family n cap =>
    [("family", family.word), ("n", Text.decimal n), ("max_file_size", Text.decimal cap)]
  | finished summary =>
    [("areuniq", spanRecord summary.distinct), ("uniqenum", spanRecord summary.enum),
      ("files", Text.decimal summary.files.length)]

def line (e : Event) : String :=
  e.level.column ++ " " ++ e.message ++
    String.join (e.fields.map fun (key, value) => " " ++ key ++ "=" ++ value) ++ "\n"

end Event

end EnumMacros
