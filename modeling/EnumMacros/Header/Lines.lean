import EnumMacros.Definition.Composer
import EnumMacros.Job
import EnumMacros.Log

/-! What headers are made of: the include guard, that is the lines around a header that keep it from
being read twice, and the definition lines of a run of sizes, with the events on the way to them. -/

namespace EnumMacros

namespace GuardStyle

/-- The guard's own part of the guard macro's name: the identifier whose raw index is the header's
number. -/
def tag (number : Nat) : String := Identifier.spell number

def guardMacro (tag : String) : String := "UNIQ_" ++ tag ++ "_H"

def opening (style : GuardStyle) (tag : String) : String :=
  match style with
  | .classic =>
    "#ifndef " ++ guardMacro tag ++ "\n" ++ "#define " ++ guardMacro tag ++ "\n"
  | .pragmaOnce => "#pragma once\n"
  | .unguarded => ""

def closing : GuardStyle → String
  | .classic => "#endif\n"
  | .pragmaOnce | .unguarded => ""

/-- The bytes that the guard takes up in the header with the given number. -/
def size (style : GuardStyle) (number : Nat) : Nat :=
  (style.opening (tag number)).utf8ByteSize + style.closing.utf8ByteSize

end GuardStyle

namespace Composer

/-- What is reported when a composer has come to remember another size. -/
def discovered (before after : Composer) : List Event :=
  if after.pivot = before.pivot then [] else after.pivot.toList.map .callsShorter

end Composer

/-- Definition lines for the sizes of a family, each with its size, the events that led to them,
and the composer afterwards. -/
structure Printed where
  lines : List (Nat × Line)
  events : List Event
  composer : Composer
  deriving Repr, DecidableEq

namespace Printed

def text (lines : List (Nat × Line)) : String := String.join (lines.map (·.2.text))

/-- What the reporter tells when the lines are written. -/
def writing (reporter : Reporter) (family : Family) (lines : List (Nat × Line)) : List Event :=
  lines.map fun (n, line) => .writing reporter family n line.size

/-- Prints the macros of a family for the sizes in order into a single header, and reports each as
it is written. -/
def ofSizes (c : Composer) (family : Family) : List Nat → Printed
  | [] => ⟨[], [], c⟩
  | n :: ns =>
    let (line, after) := c.defineLine family n
    let own := (line.map (n, ·)).toList
    let others := ofSizes after family ns
    { lines := own ++ others.lines
      events := c.discovered after ++ writing .single family own ++ others.events
      composer := others.composer }

end Printed

end EnumMacros
