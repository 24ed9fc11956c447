import EnumMacros.Family
import EnumMacros.Template.Render

/-! Everything that the text of the macros depends on: the templates of their names, what is
asserted with which message, and whether parameters may be keywords. -/

namespace EnumMacros

/-- How often it is asserted that the values of an enum are distinct. -/
inductive AssertExtent
  /-- Once for an enum, on the product of the comparisons. -/
  | once
  /-- Once for every pair of enumerators. -/
  | all
  deriving Repr, BEq, DecidableEq

namespace AssertExtent

/-- The values that an assertion message may refer to. -/
def references : AssertExtent → List String
  | once => ["n", "name", "type"]
  | all => ["enumerator1", "enumerator2"]

/-- The template of the message where none is given. -/
def standardMessage : AssertExtent → String
  | once => "duplicate enum values: \x7bname\x7d \x7btype\x7d"
  | all => "duplicate enum values: \x7benumerator1\x7d and \x7benumerator2\x7d"

def word : AssertExtent → String
  | once => "once"
  | all => "all"

def ofWord? : String → Option AssertExtent
  | "once" => some once
  | "all" => some all
  | _ => none

/-- The complaint about a word that stands for no extent. -/
def unknownWord (word : String) : String := "unknown assertion mode `" ++ word ++ "`"

end AssertExtent

/-- What is asserted, and the message when it fails. -/
structure Assertion where
  extent : AssertExtent
  message : Template
  deriving Repr, DecidableEq

namespace Assertion

/-- An assertion with the given message, or with the extent's own. -/
def make (extent : AssertExtent) (message : Option String) : Except Fault Assertion := do
  let message ← Template.parse (message.getD extent.standardMessage)
  message.checkReferences extent.references
  return { extent, message }

/-- One assertion for an enum, which names the enum and its type. -/
def standard : Assertion :=
  { extent := .once
    message :=
      { source := AssertExtent.once.standardMessage
        parts :=
          [.literal "duplicate enum values: ", .reference "name", .literal " ",
            .reference "type"] } }

theorem make_once : make .once none = .ok standard := rfl

end Assertion

/-- The options on which the text of the macros depends. -/
structure Style where
  distinctName : Template
  enumName : Template
  assertion : Assertion
  avoidKeywords : Bool
  deriving Repr, DecidableEq

namespace Style

/-- The template of the names in a family, where none is given. -/
def defaultName (family : Family) : String := family.word ++ "\x7bn\x7d"

/-- The values that a name may refer to. -/
def nameReferences : List String := ["n"]

/-- The style where no option is given. -/
def standard : Style :=
  { distinctName :=
      { source := defaultName .distinct
        parts := [.literal Family.distinct.word, .reference "n"] }
    enumName :=
      { source := defaultName .enum
        parts := [.literal Family.enum.word, .reference "n"] }
    assertion := Assertion.standard
    avoidKeywords := false }

def isIdentifier : List Char → Bool
  | [] => false
  | c :: cs => Identifier.isWordStart c && cs.all Identifier.isWordChar

/-- Refuses a macro name that is no C identifier. -/
def checkName (name : String) : Except Fault Unit :=
  if isIdentifier name.toList then .ok () else .error (.invalidName name)

/-- Refuses a template of macro names that refers to anything but the size, or whose name for one
size is no identifier. -/
def checkTemplate (t : Template) : Except Fault Unit := do
  t.checkReferences nameReferences
  checkName (t.render (Template.sizeBinding 2))

def named (distinctName enumName : String) : Except Fault Style := do
  let distinctName ← Template.parse distinctName
  let enumName ← Template.parse enumName
  checkTemplate distinctName
  checkTemplate enumName
  return { standard with distinctName, enumName }

theorem named_default : named (defaultName .distinct) (defaultName .enum) = .ok standard := rfl

def nameTemplate (s : Style) : Family → Template
  | .distinct => s.distinctName
  | .enum => s.enumName

def macroName (s : Style) (family : Family) (n : Nat) : String :=
  (s.nameTemplate family).render (Template.sizeBinding n)

end Style

end EnumMacros
