import EnumMacros.Log
import EnumMacros.Pattern.Reader
import EnumMacros.Text.Numeral
import EnumMacros.Text.Pieces

/-! Rules of a log setting. A rule names the last level to log and may be about some events only:
those of the parts of the program whose names start in a given way, those with a given field, or
those within a named scope. It is written as the start of a name, a scope and a field in brackets,
and the level after an equals sign, of which all but one may be missing; a level alone is about all
events. Of the rules about an event the most specific governs it.

The marks of a rule are found in its text without the blanks at both ends, and the pieces between
them are cut from the whole text at the same places, so blanks in front shift every piece. -/

namespace EnumMacros

/-- A field of events. With a value, which is a number or a pattern, it is a field of scopes. -/
structure LogField where
  name : List Char
  value : Option (List Char)
  deriving Repr, DecidableEq

/-- A rule of a log setting, with the depth of the last level that it lets pass. -/
structure LogRule where
  depth : Nat
  reporter : Option (List Char)
  scope : Option (List Char)
  field : Option LogField
  deriving Repr, DecidableEq

namespace LogRule

/-- Why a rule is of no use. -/
inductive Trouble
  /-- The text is not written as a rule. -/
  | unreadable
  /-- A piece of the text would begin or end inside a character. -/
  | cutInside
  deriving Repr, DecidableEq

/-- The rule about all events that lets those down to a depth pass. -/
def forAll (depth : Nat) : LogRule := ⟨depth, none, none, none⟩

def depthWords : List (List Char × Nat) :=
  [("off".toList, 0), ("error".toList, Level.error.depth), ("warn".toList, Level.warn.depth),
    ("info".toList, Level.info.depth), ("debug".toList, Level.debug.depth),
    ("trace".toList, Level.trace.depth)]

/-- The depth that a word in any case stands for, or its number. -/
def depth? (word : List Char) : Option Nat :=
  (Text.readBelow (Level.trace.depth + 1) word).or (depthWords.lookup (word.map Char.toLower))

/-- The piece of a rule's text between two places. -/
def piece (text : List Char) (first last : Nat) : Except Trouble (List Char) :=
  match Text.piece? first last text with
  | some piece => .ok piece
  | none => .error .cutInside

/-- The depth that the text of a rule names from a place on, which is the greatest if nothing is
there. -/
def readDepth (text : List Char) (place : Nat) : Except Trouble Nat :=
  match Text.cut? place text with
  | none => .error .cutInside
  | some (_, []) => .ok Level.trace.depth
  | some (_, word) =>
    match depth? word with
    | some depth => .ok depth
    | none => .error .unreadable

/-- Reads a field: its name, and what stands between the first and the second equals sign as its
value. -/
def readField (written : List Char) : Except Trouble LogField :=
  if written.isEmpty then .error .unreadable
  else
    match Text.splitChars '=' written with
    | name :: value :: _ =>
      if Text.isNumber value || Pattern.isPattern value then .ok ⟨name, some value⟩
      else .error .unreadable
    | _ => .ok ⟨written, none⟩

/-- What follows a closing bracket at a place: nothing, or a level. -/
def afterBracket (text : List Char) (place : Nat) : List Char → Except Trouble Nat
  | [] => .ok Level.trace.depth
  | '=' :: _ => readDepth text (place + 1)
  | _ => .error .unreadable

/-- What follows an opening bracket at a place: a scope, which may be missing before a field in
braces. -/
def inBracket (text : List Char) (reporter : Option (List Char)) (place : Nat) (cs : List Char) :
    Except Trouble LogRule := do
  let (inner, rest) := cs.span fun c => c != ']' && c != '\x7b'
  let last := place + Text.byteLength inner
  match rest with
  | ']' :: rest =>
    let scope ← piece text place last
    let depth ← afterBracket text (last + 1) rest
    return ⟨depth, reporter, some scope, none⟩
  | '\x7b' :: rest =>
    let scope ← piece text place last
    let (inner, rest) := rest.span (· != '\x7d')
    let place := last + 1
    let last := place + Text.byteLength inner
    match rest with
    | '\x7d' :: rest =>
      let field ← readField (← piece text place last)
      match rest with
      | ']' :: rest =>
        let depth ← afterBracket text (last + 2) rest
        return ⟨depth, reporter, if scope.isEmpty then none else some scope, some field⟩
      | _ => .error .unreadable
    | _ => .error .unreadable
  | _ => .error .unreadable

/-- Whether a name may start with the character. -/
def startsName (c : Char) : Bool := c = '-' || c = ':' || c = '_' || Text.isAlphanumeric c

/-- The rule that a text without marks stands for: a level, or the start of a name. -/
def ofWord (text : List Char) : LogRule :=
  match depth? text with
  | some depth => forAll depth
  | none => ⟨Level.trace.depth, some text, none, none⟩

def read (text : List Char) : Except Trouble LogRule :=
  match Text.trimBlanks text with
  | [] => .error .unreadable
  | '[' :: rest => inBracket text none 1 rest
  | c :: cs =>
    if startsName c then do
      let (inner, rest) := (c :: cs).span fun c => c != '=' && c != '['
      let last := Text.byteLength inner
      match rest with
      | [] => return ofWord text
      | '[' :: rest => inBracket text (some (← piece text 0 last)) (last + 1) rest
      | _ =>
        let reporter ← piece text 0 last
        return ⟨← readDepth text (last + 1), some reporter, none, none⟩
    else .error .unreadable

/-- Whether a rule is about an event. The program opens no scopes. -/
def isAbout (rule : LogRule) (e : Event) : Bool :=
  rule.scope.isNone &&
    rule.reporter.all (·.isPrefixOf e.reporter.name.toList) &&
    rule.field.all fun field =>
      field.value.isNone && ("message" :: e.fields.map (·.1)).contains (String.ofList field.name)

/-- Whether a rule gives way to one that comes after it: to a rule with a start of a name at least
as long, and among those of one length to one with a field that is not before its own. -/
def givesWay (rule later : LogRule) : Bool :=
  let length (r : LogRule) : Nat := (r.reporter.map (·.length + 1)).getD 0
  let field (r : LogRule) : String := ((r.field.map (·.name)).map String.ofList).getD ""
  length rule < length later || (length rule == length later && field rule ≤ field later)

/-- The more specific of two rules about an event, where the second comes after the first, if there
is one. -/
def moreSpecific (first : Option LogRule) (later : LogRule) : Option LogRule :=
  match first with
  | none => some later
  | some rule => if rule.givesWay later then some later else some rule

def governing? (rules : List LogRule) (e : Event) : Option LogRule :=
  (rules.filter (·.isAbout e)).foldl moreSpecific none

end LogRule

end EnumMacros
