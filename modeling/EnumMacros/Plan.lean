import EnumMacros.Files.Disk
import EnumMacros.Log

/-! What a run is going to do, step by step, and what comes of it on a file system. The steps of a
plan do not depend on what the files hold; the first step that fails ends the run. -/

namespace EnumMacros

/-- A file system with states of some type, as a run uses it: a directory is made with all the
directories that it lies in, and a file is written. Either gives the state afterwards, together with
the reason where it fails. -/
class FileSystem (σ : Type) where
  makeDirectories : σ → String → σ × Option String
  writeFile : σ → String → String → σ × Option String

instance : FileSystem Disk where
  makeDirectories d path :=
    let (after, error) := d.makeDirectories path
    (after, error.map DiskError.message)
  writeFile d path contents :=
    match d.writeFile path contents with
    | .ok after => (after, none)
    | .error e => (d, some e.message)

inductive Action
  /-- Reports an event. -/
  | report (event : Event)
  /-- Makes a directory with all the directories it lies in. -/
  | makeDirectories (path : String)
  /-- Writes a file. -/
  | writeFile (path contents : String)
  /-- Prints a text. -/
  | print (text : String)
  deriving Repr, DecidableEq

inductive Ending
  /-- All is written. -/
  | finished (summary : Summary)
  /-- A header holds the last possible size, and the size after it, where the next header is to
  start, is out of bound. -/
  | sizesExhausted
  deriving Repr, DecidableEq

structure Plan where
  actions : List Action
  ending : Ending
  deriving Repr, DecidableEq

inductive Result
  | finished (summary : Summary)
  | failed (fault : Fault)
  | sizesExhausted
  deriving Repr, DecidableEq

/-- What comes of a run: the files, what was printed and reported, and the end. -/
structure Outcome (σ : Type) where
  disk : σ
  printed : String
  events : List Event
  result : Result
  deriving Repr, DecidableEq

namespace Plan

def endResult : Ending → Result
  | .finished summary => .finished summary
  | .sizesExhausted => .sizesExhausted

variable {σ : Type} [FileSystem σ]

/-- The state after one more step, when no step has failed so far. -/
def perform (o : Outcome σ) : Action → Outcome σ × Option Fault
  | .report event => ({ o with events := o.events ++ [event] }, none)
  | .print text => ({ o with printed := o.printed ++ text }, none)
  | .makeDirectories path =>
    let (disk, refusal) := FileSystem.makeDirectories o.disk path
    ({ o with disk }, refusal.map (.unwritable path))
  | .writeFile path contents =>
    let (disk, refusal) := FileSystem.writeFile o.disk path contents
    ({ o with disk }, refusal.map (.unwritable path))

/-- Performs the steps up to the first that fails. -/
def performAll : List Action → Outcome σ → Outcome σ
  | [], o => o
  | action :: actions, o =>
    match perform o action with
    | (after, none) => performAll actions after
    | (after, some fault) => { after with result := .failed fault }

def run (p : Plan) (disk : σ) : Outcome σ :=
  performAll p.actions
    { disk, printed := "", events := [], result := endResult p.ending }

end Plan

end EnumMacros
