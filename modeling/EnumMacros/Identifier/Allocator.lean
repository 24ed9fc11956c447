import EnumMacros.Identifier.Memory
import EnumMacros.Identifier.Order
import EnumMacros.Identifier.Spelling

/-! Identifiers with reserved words left out. A requested index `i` yields the `i`-th identifier
that is not reserved. An allocator computes it from the raw index `i` plus the number of reserved
words to skip; where the identifier found so is itself reserved, the index is entered in a ledger,
and the reserved words that come up at that index are skipped as well. What has been computed once
is kept. -/

namespace EnumMacros.Identifier

/-- The keywords of C, shorter ones first. A parameter may bear the name of one, but code expanded
from such a macro is hard to read. -/
def keywords : List String :=
  ["do", "if", "for", "int", "auto", "bool", "case", "char", "else", "enum", "goto", "long",
    "true", "void", "break", "const", "false", "float", "short", "union", "while", "double",
    "extern", "inline", "return", "signed", "sizeof", "static", "struct", "switch", "typeof",
    "alignas", "alignof", "default", "nullptr", "typedef", "continue", "register", "restrict",
    "unsigned", "volatile", "constexpr", "thread_local", "static_assert", "typeof_unqual"]

/-- Requested indices lie below this bound. -/
def requestLimit : Nat := 0x10000000000000000

/-- An allocator: its reserved words, the raw indices of those that are identifiers, and the
requested indices that have met a reserved word, both in increasing order, and the identifiers
computed so far. -/
structure Allocator where
  reserved : List String
  reservedRaws : List Nat
  ledger : List Nat
  cache : Memory
  deriving Repr, DecidableEq

namespace Allocator

/-- An allocator that never gives out one of the words. -/
def reserving (words : List String) : Allocator :=
  { reserved := words
    reservedRaws := increasing (words.filterMap rawIndex?)
    ledger := []
    cache := .blank }

/-- An allocator that never gives out a keyword of C. -/
def avoidingKeywords : Allocator := reserving keywords

/-- An allocator that gives out every identifier. -/
def unrestricted : Allocator := reserving []

/-- The requested index at which each reserved word would come up: the `k`-th of them when the `k`
before it have been skipped. -/
def collisions (a : Allocator) : List Nat :=
  a.reservedRaws.mapIdx fun k raw => raw - k

/-- The number of reserved words to skip for a requested index. Those that come up at the index
itself count once it is in the ledger. -/
def skip (a : Allocator) (i : Nat) : Nat :=
  if a.ledger.contains i then a.collisions.countP (· ≤ i) else a.collisions.countP (· < i)

def reserves (a : Allocator) (word : String) : Bool := a.reserved.contains word

def remember (a : Allocator) (i : Nat) : Allocator := { a with ledger := enter i a.ledger }

/-- The allocator with the identifier for the index in its cache. -/
def keep (a : Allocator) (i : Nat) (name : String) : Allocator :=
  { a with cache := a.cache.keep i name }

/-- The identifier for a requested index, and the allocator afterwards. -/
def take (a : Allocator) (i : Nat) : String × Allocator :=
  match a.cache.find? i with
  | some name => (name, a)
  | none =>
    let candidate := spell (i + a.skip i)
    if a.reserves candidate then
      let recorded := a.remember i
      let name := spell (i + recorded.skip i)
      (name, recorded.keep i name)
    else (candidate, a.keep i candidate)

/-- The identifier for a requested index. -/
def name (a : Allocator) (i : Nat) : String := (a.take i).1

/-- As `take`, for an index that may be negative: there is no identifier then, and the allocator
stays as it is. -/
def take? (a : Allocator) : Int → Option String × Allocator
  | .ofNat i => let (name, after) := a.take i; (some name, after)
  | .negSucc _ => (none, a)

/-- The requested index that yields the name, if there is one below the bound. -/
def requestFor? (a : Allocator) (name : String) : Option Nat :=
  if a.reserves name then none
  else do
    let raw ← rawIndex? name
    let i := raw - a.reservedRaws.countP (· < raw)
    if i < requestLimit then some i else none

end Allocator

end EnumMacros.Identifier
