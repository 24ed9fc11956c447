import EnumMacros.Definition.Pairs
import EnumMacros.Style

/-! Macro definitions. A body compares every pair of parameters, or calls smaller checks on runs of
them, or declares an enum; its tokens follow from which it is. Printed, a definition is one line,
whose size is known without writing it. -/

namespace EnumMacros

/-- A token of a body. Words are the identifiers, which the preprocessor replaces where they name a
parameter; marks are all the punctuation between them, and the tokens of a message keep to string
literals and the quoting operator. -/
inductive Token
  | word (name : String)
  | mark (text : String)
  | message (token : Text.CLiteral.Token)
  deriving Repr, BEq, DecidableEq

namespace Token

def text : Token → String
  | word name => name
  | mark text => text
  | message token => token.text

def textOf (tokens : List Token) : String := String.join (tokens.map text)

/-- Runs of tokens with a mark between each two. -/
def separated (between : String) (runs : List (List Token)) : List Token :=
  [Token.mark between].intercalate runs

end Token

structure Call where
  callee : String
  arguments : List String
  deriving Repr, BEq, DecidableEq

def Call.tokens (c : Call) : List Token :=
  [.word c.callee, .mark "("] ++ Token.separated "," (c.arguments.map fun a => [.word a]) ++
    [.mark ")"]

/-- The word that opens an assertion. -/
def assertWord : String := "_Static_assert"

def enumWord : String := "enum"

namespace Assertion

/-- Asserts a condition with the message for the given values. -/
def tokens (a : Assertion) (condition : List Token) (values : Bindings) : List Token :=
  [.word assertWord, .mark "("] ++ condition ++ [.mark ","] ++
    (a.message.stringTokens values).map .message ++ [.mark ")"]

/-- The values of the message about a pair of enumerators. -/
def pairValues (x y : String) : Bindings :=
  [("enumerator1", .parameter x), ("enumerator2", .parameter y)]

/-- The values of the message about an enum. -/
def enumValues (n : Nat) (name type : String) : Bindings :=
  [("n", .text (Text.decimal n)), ("name", .parameter name), ("type", .parameter type)]

def comparison (x y : String) : List Token :=
  [.mark "((", .word x, .mark ")!=(", .word y, .mark "))"]

/-- The check of one pair: the comparison, asserted by itself where every pair is. -/
def pairTokens (a : Assertion) (x y : String) : List Token :=
  match a.extent with
  | .once => comparison x y
  | .all => a.tokens (comparison x y) (pairValues x y)

/-- What stands between two checks: a product where it is asserted as a whole. -/
def joint (a : Assertion) : String :=
  match a.extent with
  | .once => "*"
  | .all => ";"

end Assertion

/-- The declaration of an enum, with the call that checks its values when there are at least two of
them. An enumerator is a name and what is written after it. -/
structure Declaration where
  name : String
  enumerators : List (String × String)
  type : String
  check : Option Call
  deriving Repr, BEq, DecidableEq

namespace Declaration

def enumTokens (d : Declaration) : List Token :=
  [.word enumWord, .mark " ", .word d.name, .mark "\x7b"] ++
    Token.separated "," (d.enumerators.map fun (key, value) =>
      [.word key, .mark " ", .word value]) ++
    [.mark "\x7d", .word d.type]

/-- The tokens of the check, which is asserted here where it is not asserted for every pair. -/
def checkTokens (a : Assertion) (d : Declaration) : List Token :=
  match d.check with
  | none => []
  | some call =>
    .mark ";" ::
      match a.extent with
      | .once => a.tokens call.tokens (Assertion.enumValues d.enumerators.length d.name d.type)
      | .all => call.tokens

end Declaration

inductive Body
  /-- Compares every pair of the names. -/
  | comparisons (names : List String)
  /-- Calls a smaller check for each group of names. -/
  | calls (group : List Call)
  /-- Declares an enum. -/
  | declaration (declaration : Declaration)
  deriving Repr, BEq, DecidableEq

namespace Body

def tokens (a : Assertion) : Body → List Token
  | comparisons names =>
    Token.separated a.joint ((pairs names).map fun (x, y) => a.pairTokens x y)
  | calls group => Token.separated a.joint (group.map Call.tokens)
  | declaration d => d.enumTokens ++ d.checkTokens a

def text (a : Assertion) (b : Body) : String := Token.textOf (b.tokens a)

end Body

/-- A definition line: the name, the parameters and the text that the macro stands for. -/
structure Line where
  name : String
  params : List String
  body : String
  deriving Repr, BEq, DecidableEq

namespace Line

/-- The line as it is written, with its line feed. -/
def text (l : Line) : String :=
  "#define " ++ l.name ++ "(" ++ String.intercalate "," l.params ++ ")" ++ l.body ++ "\n"

/-- The bytes of the line, counted from its parts. -/
def size (l : Line) : Nat :=
  "#define ".utf8ByteSize + l.name.utf8ByteSize + 2 + total (l.params.map String.utf8ByteSize) +
    (l.params.length - 1) + l.body.utf8ByteSize + 1

end Line

structure Definition where
  name : String
  params : List String
  body : Body
  deriving Repr, BEq, DecidableEq

def Definition.line (a : Assertion) (d : Definition) : Line :=
  ⟨d.name, d.params, d.body.text a⟩

end EnumMacros
