import EnumMacros.Template.Basic
import EnumMacros.Text.CLiteral

/-! What a template stands for once its values are given, as plain text and as a C string
expression. In an expression the values that are macro parameters are quoted by the preprocessor;
everything else goes into string literals. A reference without a value stands for itself. -/

namespace EnumMacros

/-- A value: a text, or the name of a macro parameter. -/
inductive Value
  | text (content : String)
  | parameter (name : String)
  deriving Repr, BEq, DecidableEq

def Value.plain : Value → String
  | text content => content
  | parameter name => name

/-- The value as a stretch of a string expression. -/
def Value.piece : Value → Text.CLiteral.Piece
  | text content => .text content
  | parameter name => .argument name

/-- Values by name; of two with one name the first counts. -/
abbrev Bindings := List (String × Value)

namespace Template

def plainPart (values : Bindings) : Part → String
  | .literal text => text
  | .reference name => ((values.lookup name).map Value.plain).getD (Fault.bracedName name)

def render (t : Template) (values : Bindings) : String :=
  String.join (t.parts.map (plainPart values))

/-- The part as a stretch of a string expression. -/
def piece (values : Bindings) : Part → Text.CLiteral.Piece
  | .literal text => .text text
  | .reference name =>
    ((values.lookup name).map Value.piece).getD (.text (Fault.bracedName name))

def stringTokens (t : Template) (values : Bindings) : List Text.CLiteral.Token :=
  Text.CLiteral.expression (t.parts.map (piece values))

/-- The text of the template's string expression. -/
def stringExpression (t : Template) (values : Bindings) : String :=
  String.join ((t.stringTokens values).map Text.CLiteral.Token.text)

/-- The values of a macro name template: the size. -/
def sizeBinding (n : Nat) : Bindings := [("n", .text (Text.decimal n))]

end Template

end EnumMacros
