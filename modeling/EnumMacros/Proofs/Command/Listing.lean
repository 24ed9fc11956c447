import EnumMacros.Command.Run
import EnumMacros.Proofs.Identifier.Enumeration
import EnumMacros.Proofs.Text.Numerals

/-! Identifiers printed for a list of indices. One allocator serves the whole list, but its answers
do not depend on what it has been asked before, so each line is the one for its index alone. The
printing stops at the first text that is no index. -/

namespace EnumMacros.Command

open Identifier Identifier.Allocator

/-! ### Indices -/

/-- The text of a whole number of 64 bits. -/
def IsWhole (text : String) (i : Int) : Prop :=
  Text.IsInteger text.toList i ∧ -(indexBound : Int) ≤ i ∧ i < indexBound

/-- The text of an index. -/
def IsIndex (text : String) (n : Nat) : Prop := IsWhole text n

/-- The texts of no index, with what is wrong with them. -/
inductive Offends : String → Fault → Prop
  | unusable {text : String} : (∀ i, ¬IsWhole text i) → Offends text (.unusableNumber "INDEX" text)
  | negative {text : String} {i : Int} : IsWhole text i → i < 0 → Offends text (.negativeIndex i)

theorem readSigned_iff_isWhole {text : String} {i : Int} :
    Text.readSigned indexBound text.toList = some i ↔ IsWhole text i :=
  Text.readSigned_eq_some_iff (by decide)

theorem IsWhole.unique {text : String} {i j : Int} (h : IsWhole text i) (h' : IsWhole text j) :
    i = j :=
  Option.some.inj ((readSigned_iff_isWhole.2 h).symm.trans (readSigned_iff_isWhole.2 h'))

theorem IsIndex.lt {text : String} {n : Nat} (h : IsIndex text n) : n < indexBound :=
  Int.ofNat_lt.1 h.2.2

theorem isIndex_or_offends (text : String) :
    (∃ n, IsIndex text n) ∨ ∃ fault, Offends text fault := by
  by_cases whole : ∃ i, IsWhole text i
  · obtain ⟨i, whole⟩ := whole
    cases i with
    | ofNat n => exact .inl ⟨n, whole⟩
    | negSucc n => exact .inr ⟨_, .negative whole (Int.negSucc_lt_zero n)⟩
  · exact .inr ⟨_, .unusable (not_exists.1 whole)⟩

theorem IsIndex.not_offends {text : String} {n : Nat} (h : IsIndex text n) {fault : Fault} :
    ¬Offends text fault
  | .unusable noWhole => noWhole n h
  | .negative whole negative => by
    rw [← IsWhole.unique h whole] at negative
    exact absurd negative (Int.natCast_nonneg n).not_gt

theorem Offends.code {text : String} {fault : Fault} (h : Offends text fault) :
    (fault.code = "E0008" ∧ ∀ i, ¬IsWhole text i) ∨
      fault.code = "E0001" ∧ ∃ i < 0, IsWhole text i := by
  cases h with
  | unusable noWhole => exact .inl ⟨rfl, noWhole⟩
  | negative whole negative => exact .inr ⟨rfl, _, negative, whole⟩

/-! ### Lists -/

theorem onLines_singleton (text : String) : onLines [text] = text ++ "\n" := by
  simp [onLines, String.join]

variable {words : List String} {a : Allocator} {text : String}

theorem identifiersAt_of_isIndex (sound : Sound words a) {n : Nat} (index : IsIndex text n)
    (texts : List String) :
    ∃ after, Sound words after ∧ identifiersAt a (text :: texts) =
      (spell (freeRaw words n) :: (identifiersAt after texts).1,
        (identifiersAt after texts).2) := by
  obtain ⟨answer, kept⟩ := take_spec sound n
  refine ⟨(a.take n).2, kept, ?_⟩
  rw [identifiersAt, readSigned_iff_isWhole.2 index, ← answer]
  rfl

theorem identifiersAt_of_offends {fault : Fault} (offends : Offends text fault)
    (texts : List String) :
    identifiersAt a (text :: texts) = ([], some fault) := by
  rw [identifiersAt]
  cases offends with
  | unusable noWhole =>
    have unread : Text.readSigned indexBound text.toList = none :=
      Option.eq_none_iff_forall_ne_some.2 fun i read => noWhole i (readSigned_iff_isWhole.1 read)
    rw [unread]
  | @negative i whole negative =>
    rw [readSigned_iff_isWhole.2 whole]
    cases i with
    | ofNat n => exact absurd negative (Int.natCast_nonneg n).not_gt
    | negSucc n => rfl

/-- Whatever an allocator has been used for, a list gets the identifiers of its indices up to the
first text that is none. -/
theorem identifiersAt_spec (sound : Sound words a) (texts : List String) :
    (∃ numbers, List.Forall₂ IsIndex texts numbers ∧
      identifiersAt a texts = (numbers.map fun n => spell (freeRaw words n), none)) ∨
    ∃ before text after numbers fault, texts = before ++ text :: after ∧
      List.Forall₂ IsIndex before numbers ∧ Offends text fault ∧
      identifiersAt a texts = (numbers.map fun n => spell (freeRaw words n), some fault) := by
  induction texts generalizing a with
  | nil => exact .inl ⟨[], .nil, rfl⟩
  | cons text texts ih =>
    rcases isIndex_or_offends text with ⟨n, index⟩ | ⟨fault, offends⟩
    · obtain ⟨after, kept, step⟩ := identifiersAt_of_isIndex sound index texts
      rw [step]
      rcases ih kept with ⟨numbers, indices, rest⟩ |
        ⟨before, other, later, numbers, fault, rfl, indices, offends, rest⟩
      · exact .inl ⟨n :: numbers, .cons index indices, by rw [rest]; rfl⟩
      · exact .inr ⟨text :: before, other, later, n :: numbers, fault, rfl, .cons index indices,
          offends, by rw [rest]; rfl⟩
    · exact .inr ⟨[], text, texts, [], fault, rfl, .nil, offends,
        identifiersAt_of_offends offends texts⟩

example : identifiersAt .avoidingKeywords ["255", "+0", "255", "-1", "1"] =
    (["dp", "a", "dp"], some (.negativeIndex (-1))) := by
  decide +kernel

/-! ### Sources -/

/-- The words that are left out. -/
def withheld (allowKeywords : Bool) : List String := if allowKeywords then [] else keywords

theorem sound_identifierSource (allowKeywords : Bool) :
    Sound (withheld allowKeywords) (identifierSource allowKeywords) := by
  cases allowKeywords <;> exact sound_reserving _

theorem name_identifierSource (allowKeywords : Bool) (n : Nat) :
    (identifierSource allowKeywords).name n = spell (freeRaw (withheld allowKeywords) n) :=
  (take_spec (sound_identifierSource allowKeywords) n).1

theorem isNthFree_keywords {n : Nat} (small : n < indexBound) :
    IsNthFree keywords n (freeRaw keywords n) := by
  have few : (wordRaws keywords).length ≤ 45 := length_wordRaws_le keywords
  have room : (wordRaws keywords).length + requestLimit ≤ indexLimit :=
    (Nat.add_le_add_right few requestLimit).trans (by decide)
  exact isNthFree_freeRaw (freeRaw_lt_indexLimit room (small.trans (by decide)))

/-- A list of indices is answered one line each, up to the first text that is no index; the process
fails with the fault of that text, and succeeds if there is none. Each line is the one for its index
alone: the identifier at that raw index, or the one that has as many before it that are no keywords.
An index offends in no way, and what is no index offends by being negative or no whole number of 64
bits. -/
theorem identifiers_printed_independently (indices : List String) (allowKeywords : Bool)
    (filter : LogFilter) (disk : Disk) :
    let source := identifierSource allowKeywords
    let lines (numbers : List Nat) := onLines (numbers.map source.name)
    let run (texts : List String) :=
      ((Target.identifiers texts allowKeywords).execute disk).process filter
    ((∃ numbers, List.Forall₂ IsIndex indices numbers ∧
        run indices = ⟨0, lines numbers, "", disk⟩) ∨
      ∃ before text after numbers fault, indices = before ++ text :: after ∧
        List.Forall₂ IsIndex before numbers ∧ Offends text fault ∧
        run indices = ⟨1, lines numbers, fault.diagnostic, disk⟩) ∧
    (∀ text n, IsIndex text n →
      n < indexBound ∧ (∀ fault, ¬Offends text fault) ∧
      run [text] = ⟨0, source.name n ++ "\n", "", disk⟩) ∧
    (∀ text fault, Offends text fault →
      (fault.code = "E0008" ∧ ∀ i, ¬IsWhole text i) ∨
        fault.code = "E0001" ∧ ∃ i < 0, IsWhole text i) ∧
    ∀ n < indexBound,
      (allowKeywords = true → source.name n = spell n) ∧
      (allowKeywords = false → ∃ raw, IsNthFree keywords n raw ∧
        (∀ other, IsNthFree keywords n other → other = raw) ∧ source.name n = spell raw) := by
  intro source lines run
  have sound := sound_identifierSource allowKeywords
  have name (n : Nat) : source.name n = spell (freeRaw (withheld allowKeywords) n) :=
    name_identifierSource allowKeywords n
  have answers : (fun n => spell (freeRaw (withheld allowKeywords) n)) = source.name :=
    funext fun n => (name n).symm
  refine ⟨?list, fun text n index => ⟨index.lt, fun _ => index.not_offends, ?alone⟩,
    fun text fault => Offends.code, fun n small => ⟨?raw, ?free⟩⟩
  case list =>
    rcases identifiersAt_spec sound indices with ⟨numbers, read, listed⟩ |
      ⟨before, text, after, numbers, fault, whole, read, offends, listed⟩
    all_goals rw [answers] at listed
    · exact .inl ⟨numbers, read, by simp only [run, Target.execute, listed]; rfl⟩
    · exact .inr ⟨before, text, after, numbers, fault, whole, read, offends,
        by simp only [run, Target.execute, listed]; rfl⟩
  case alone =>
    obtain ⟨after, -, listed⟩ := identifiersAt_of_isIndex sound index []
    rw [← name, identifiersAt] at listed
    simp only [run, Target.execute, listed]
    rw [Execution.process, onLines_singleton]
    rfl
  case raw =>
    rintro rfl
    exact name n
  case free =>
    rintro rfl
    have nth := isNthFree_keywords small
    exact ⟨_, nth, fun other same => same.unique nth, name n⟩

end EnumMacros.Command
