import EnumMacros.Identifier.Memory
import EnumMacros.Style

/-! The names of macros that have been asked for. A name is rendered from the template of its family
the first time, and kept for every time after. -/

namespace EnumMacros

/-- The names rendered so far, for each family by size. -/
structure Registry where
  distinct : Identifier.Memory
  enum : Identifier.Memory
  deriving Repr, DecidableEq

namespace Registry

def blank : Registry := ⟨.blank, .blank⟩

def find? (r : Registry) (family : Family) (n : Nat) : Option String :=
  match family with
  | .distinct => r.distinct.find? n
  | .enum => r.enum.find? n

def keep (r : Registry) (family : Family) (n : Nat) (name : String) : Registry :=
  match family with
  | .distinct => { r with distinct := r.distinct.keep n name }
  | .enum => { r with enum := r.enum.keep n name }

@[simp] theorem find?_blank (family : Family) (n : Nat) : blank.find? family n = none := by
  cases family <;> rfl

/-- Only the macro whose name is kept has another one than before. -/
theorem find?_keep (r : Registry) (family other : Family) (n k : Nat) (name : String) :
    (r.keep family n name).find? other k =
      if other = family ∧ k = n then some name else r.find? other k := by
  cases family <;> cases other <;> simp [find?, keep, Identifier.Memory.find?_keep]

/-- The name of a family's macro of size `n`, and the registry afterwards. -/
def take (r : Registry) (style : Style) (family : Family) (n : Nat) : String × Registry :=
  match r.find? family n with
  | some name => (name, r)
  | none =>
    let name := style.macroName family n
    (name, r.keep family n name)

end Registry

end EnumMacros
