import EnumMacros.Log.Rule

/-! Which events are logged. A setting is a list of rules between commas; one with a rule that is
not written as such counts as missing, and then the verbosity of the run decides. -/

namespace EnumMacros

structure LogFilter where
  rules : List LogRule
  deriving Repr, DecidableEq

namespace LogFilter

/-- Warnings; in a verbose run also the progress. -/
def standard (verbose : Bool) : LogFilter :=
  ⟨[.forAll (if verbose then Level.info.depth else Level.warn.depth)]⟩

/-- The filter that a setting asks for, or the trouble with its first rule that has one. Nothing
between two commas is no rule. -/
def ofSetting (setting : String) : Except LogRule.Trouble LogFilter :=
  let texts := (Text.splitChars ',' setting.toList).filter (!·.isEmpty)
  (texts.mapM LogRule.read).map LogFilter.mk

/-- The filter of a run: a setting that can be read goes before the verbosity. There is none when a
piece of the setting would begin or end inside a character. -/
def choose (setting : Option String) (verbose : Bool) : Option LogFilter :=
  match setting.map ofSetting with
  | some (.ok filter) => some filter
  | some (.error .cutInside) => none
  | some (.error .unreadable) | none => some (standard verbose)

/-- Whether an event is logged: the rule that governs it lets its level pass. -/
def passes (f : LogFilter) (e : Event) : Bool :=
  (LogRule.governing? f.rules e).any fun rule => e.level.depth ≤ rule.depth

def log (f : LogFilter) (events : List Event) : String :=
  String.join ((events.filter f.passes).map Event.line)

end LogFilter

end EnumMacros
