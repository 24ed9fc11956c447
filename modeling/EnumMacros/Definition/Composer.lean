import EnumMacros.Definition.Basic
import EnumMacros.Definition.Parts
import EnumMacros.Definition.Registry
import EnumMacros.Identifier.Scope

/-! The definitions of the macros of each size. A check of two names compares them. A larger one
comes in two forms, and the shorter is taken: comparing every pair, or dividing the parameters into
three parts and calling a smaller check on every two of them. Once the calls have been found to be
shorter at some size, they are taken from that size on without another measurement; that size, the
names of the macros that it has been asked for, and the identifiers that it has drawn, are all that
a composer remembers. -/

namespace EnumMacros

/-- A composer: the style, the names of macros rendered so far, the source of parameter names, and
the smallest size at which the calls were found shorter than the comparisons. -/
structure Composer where
  style : Style
  registry : Registry
  names : Identifier.Allocator
  pivot : Option Nat
  deriving Repr, DecidableEq

namespace Composer

def start (style : Style) : Composer :=
  { style
    registry := .blank
    names := if style.avoidKeywords then .avoidingKeywords else .unrestricted
    pivot := none }

/-- The parameters at some places of a scope, and the composer afterwards; none when the scope runs
out of identifiers. -/
def params? (c : Composer) (scope : Identifier.Scope) (places : List Nat) :
    Option (List String) × Composer :=
  let (names, after) := scope.takeEach? c.names [] places
  (names, { c with names := after })

/-- The name of a family's macro of size `n`: the one that is kept, or else a new one. -/
def macroName (c : Composer) (family : Family) (n : Nat) : String :=
  (c.registry.take c.style family n).1

/-- The composer after it has been asked for the name of a family's macro. -/
def naming (c : Composer) (family : Family) (n : Nat) : Composer :=
  { c with registry := (c.registry.take c.style family n).2 }

/-- The composer after it has been asked for the names of a family's macros of some sizes. -/
def namingAll (c : Composer) (family : Family) (sizes : List Nat) : Composer :=
  sizes.foldl (fun c n => c.naming family n) c

def checkName (c : Composer) (n : Nat) : String := c.macroName .distinct n

/-- The sizes of the smaller checks that a check of size `n` may call: one for every two parts. -/
def calleeSizes (n : Nat) : List Nat := Id.run (calleeSizesBy pure n)

theorem calleeSizes_eq_map (n : Nat) :
    calleeSizes n = (pairs (parts n)).map fun (q, r) => q.length + r.length := by
  rw [calleeSizes, calleeSizesBy]
  exact List.idRun_mapM

/-- The smaller checks that a check of size `n` may call. -/
def callees (c : Composer) (n : Nat) : List String := (calleeSizes n).map c.checkName

/-- Whether the calls are shorter than comparing every pair of the names: the text of the calls
is the budget, and every comparison but the first needs a joint. -/
def callsAreShorter (a : Assertion) (calls : Body) (names : List String) : Bool :=
  let cost := fun x y => (Token.textOf (a.pairTokens x y)).utf8ByteSize + a.joint.utf8ByteSize
  let budget := (calls.text a).utf8ByteSize + a.joint.utf8ByteSize
  (spendPairs cost names budget).isNone

/-- Whether the calls are known to be shorter at a size without measuring. -/
def hasPivot (c : Composer) (n : Nat) : Bool := c.pivot.any (· ≤ n)

/-- The names that the check of size `n` uses in its body: those that the calls of a larger check
would use. -/
def distinctScope (c : Composer) (n : Nat) : Identifier.Scope :=
  if n = 2 then .empty else .of c.names (c.callees n)

/-- The calls that check every two parts of the names. -/
def partCalls (c : Composer) (names : List String) : Body :=
  .calls ((pairs (parts names.length)).map fun (q, r) =>
    ⟨c.checkName (q.length + r.length), q.members names ++ r.members names⟩)

/-- The check of size `n` when the names in it have been asked for, and the composer afterwards. -/
def composeCheck (c : Composer) (n : Nat) : Option Definition × Composer :=
  match c.params? (c.distinctScope n) (List.range n) with
  | (none, after) => (none, after)
  | (some params, after) =>
    let compared : Definition := ⟨c.checkName n, params, .comparisons params⟩
    let called : Definition := ⟨c.checkName n, params, c.partCalls params⟩
    if n = 2 then (some compared, after)
    else if c.hasPivot n then (some called, after)
    else if callsAreShorter c.style.assertion called.body params then
      (some called, { after with pivot := some n })
    else (some compared, after)

/-- The check of size `n`, for sizes from two on, and the composer afterwards. -/
def distinct (c : Composer) (n : Nat) : Option Definition × Composer :=
  (c.namingAll .distinct (n :: if n = 2 then [] else calleeSizes n)).composeCheck n

/-- The names that the enum macro of size `n` uses in its body. -/
def enumScope (c : Composer) (n : Nat) : Identifier.Scope :=
  .of c.names ([enumWord, c.macroName .enum n] ++ if 2 ≤ n then [c.checkName n] else [])

/-- The enum macro of size `n` whose parameters are given: the enumerators, what is written after
each, and the names of the enum and its type. -/
def enumOf (c : Composer) (n : Nat) (keys values : List String) (name type : String) :
    Definition :=
  { name := c.macroName .enum n
    params := name :: (keys.zip values).flatMap (fun (key, value) => [key, value]) ++ [type]
    body := .declaration {
      name, type
      enumerators := keys.zip values
      check := if 2 ≤ n then some ⟨c.checkName n, keys⟩ else none } }

/-- The enum macro of size `n` when the names in it have been asked for, and the composer
afterwards. The enumerators come first in the scope, then what is written after each, then the names
of the enum and its type. -/
def composeEnum (c : Composer) (n : Nat) : Option Definition × Composer :=
  let scope := c.enumScope n
  match c.params? scope (List.range n) with
  | (none, c) => (none, c)
  | (some keys, c) =>
    match c.params? scope (List.range' n n) with
    | (none, c) => (none, c)
    | (some values, c) =>
      match c.params? scope [2 * n + 1, 2 * n + 2] with
      | (some [name, type], c) => (some (c.enumOf n keys values name type), c)
      | (_, c) => (none, c)

/-- The enum macro of size `n`, for sizes from one on, and the composer afterwards. -/
def enum (c : Composer) (n : Nat) : Option Definition × Composer :=
  ((c.naming .enum n).namingAll .distinct (if 2 ≤ n then [n] else [])).composeEnum n

/-- The macro of a family of size `n`, if there is one, and the composer afterwards. -/
def define (c : Composer) (family : Family) (n : Nat) : Option Definition × Composer :=
  if n < family.least then (none, c)
  else
    match family with
    | .distinct => c.distinct n
    | .enum => c.enum n

/-- The definition as a line in the composer's style. -/
def line (c : Composer) (d : Definition) : Line := d.line c.style.assertion

/-- The definition line of a family's macro of size `n`, and the composer afterwards. -/
def defineLine (c : Composer) (family : Family) (n : Nat) : Option Line × Composer :=
  let (definition, after) := c.define family n
  (definition.map c.line, after)

end Composer

end EnumMacros
