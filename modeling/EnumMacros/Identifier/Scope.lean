import EnumMacros.Identifier.Allocator

/-! Identifiers outside a scope. A parameter that bore the name of a macro called in the body would
be replaced there by its argument, so the names that a body uses are left out of the count. -/

namespace EnumMacros.Identifier

/-- The requested indices of the names to leave out, in increasing order. -/
structure Scope where
  skips : List Nat
  deriving Repr, DecidableEq

namespace Scope

def empty : Scope := ⟨[]⟩

/-- Leaves out the names that the allocator would give out. -/
def of (a : Allocator) (names : List String) : Scope :=
  ⟨increasing (names.filterMap a.requestFor?)⟩

/-- The requested index of the `i`-th identifier that is not left out: each index to skip that is
not above the one reached moves it on by one. None when it would pass the bound. -/
def advance? : List Nat → Nat → Option Nat
  | [], i => some i
  | skip :: skips, i =>
    if i < skip then some i
    else if i + 1 < requestLimit then advance? skips (i + 1)
    else none

/-- The `i`-th identifier outside the scope, and the allocator afterwards. -/
def take? (s : Scope) (a : Allocator) (i : Nat) : Option String × Allocator :=
  match advance? s.skips i with
  | some index => let (name, after) := a.take index; (some name, after)
  | none => (none, a)

/-- The identifiers outside the scope at several indices, in order, and the allocator afterwards;
none as soon as there is none at one of them. Those found before stand with the last one first. -/
def takeEach? (s : Scope) (a : Allocator) (found : List String) :
    List Nat → Option (List String) × Allocator
  | [] => (some found.reverse, a)
  | i :: is =>
    match s.take? a i with
    | (none, after) => (none, after)
    | (some name, after) => s.takeEach? after (name :: found) is

end Scope

end EnumMacros.Identifier
