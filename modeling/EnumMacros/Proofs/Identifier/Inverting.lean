import EnumMacros.Proofs.Identifier.Correspondence
import EnumMacros.Proofs.Identifier.Reserving

/-! Looking up the requested index of a name. Drawing counts the words that come up until an index,
looking up those that lie below a raw index; the two agree for every name and after any uses, so
that either undoes the other: `requestFor?_inverts_take`. What is found is the place of the name
among the names that are not reserved. -/

namespace EnumMacros.Identifier

/-- The number of names outside the words that are generated before a name. -/
noncomputable def freeNamesBefore (words : List String) (name : String) : Nat :=
  {other : String | IsName other ∧ other ∉ words ∧ compareNames other name = .lt}.ncard

theorem freeNamesBefore_spell (words : List String) (raw : Nat) :
    freeNamesBefore words (spell raw) = (List.range raw).countP (IsFree words ·) := by
  have image : {other : String | IsName other ∧ other ∉ words ∧
      compareNames other (spell raw) = .lt} =
        spell '' ((Finset.range raw).filter (IsFree words) : Set Nat) := by
    ext other
    simp only [Set.mem_ofPred_eq, Set.mem_image, Finset.coe_filter, Finset.mem_range]
    constructor
    · rintro ⟨isName, unreserved, before⟩
      obtain ⟨place, rfl⟩ := exists_spell_eq isName
      rw [compareNames_spell] at before
      exact ⟨place, ⟨Nat.compare_eq_lt.1 before, unreserved⟩, rfl⟩
    · rintro ⟨place, ⟨before, unreserved⟩, rfl⟩
      refine ⟨isName_spell place, unreserved, ?_⟩
      rw [compareNames_spell]
      exact Nat.compare_eq_lt.2 before
  rw [freeNamesBefore, image, Set.ncard_image_of_injective _ fun _ _ => spell_injective,
    Set.ncard_coe_finset, ← Nat.count_eq_card_filter_range]
  rfl

namespace Allocator

variable {words : List String} {a : Allocator}

/-- A name that is not reserved is found at its place among such names, as far as requests go. -/
theorem requestFor?_of_isName (sound : a.Sound words)
    (room : (wordRaws words).length + requestLimit ≤ indexLimit) {name : String}
    (isName : IsName name) (unreserved : name ∉ words) :
    a.requestFor? name =
      if freeNamesBefore words name < requestLimit then some (freeNamesBefore words name)
      else none := by
  obtain ⟨raw, rfl⟩ := exists_spell_eq isName
  rw [freeNamesBefore_spell]
  exact requestFor?_spell sound room ⟨unreserved, rfl⟩

theorem requestFor?_eq_none_iff (sound : a.Sound words)
    (room : (wordRaws words).length + requestLimit ≤ indexLimit) {name : String} :
    a.requestFor? name = none ↔
      name ∈ words ∨ ¬IsName name ∨ ∀ i < requestLimit, (a.take i).1 ≠ name := by
  have answers (i : Nat) : (a.take i).1 = spell (freeRaw words i) := (take_spec sound i).1
  rw [Option.eq_none_iff_forall_ne_some]
  constructor
  · intro unknown
    refine .inr (.inr fun i small drawn => unknown i ?_)
    rw [answers] at drawn
    exact (requestFor?_eq_some_iff sound room).2 ⟨small, drawn⟩
  · intro excluded i found
    obtain ⟨small, rfl⟩ := (requestFor?_eq_some_iff sound room).1 found
    rcases excluded with reserved | other | never
    · exact isFree_freeRaw (freeRaw_lt_indexLimit room small) reserved
    · exact other (isName_spell _)
    · exact never i small (answers i)

/-- Looking up and drawing are inverse to each other, whatever the allocator has been used for: a
name is found at an index exactly when it is drawn there. Reserved words are not found, nor texts
that are no names, nor names that no request draws; any other name is found at the number of names
outside the words before it. There are always at least as many raw indices below a name as words. -/
theorem requestFor?_inverts_take (words : List String)
    (room : (reserving words).reservedRaws.length + requestLimit ≤ indexLimit) (uses : List Use)
    (name : String) :
    let a := (reserving words).afterAll uses
    (∀ i < requestLimit, a.requestFor? name = some i ↔ (a.take i).1 = name) ∧
      (∀ i, a.requestFor? name = some i → i < requestLimit ∧ freeNamesBefore words name = i) ∧
      (a.requestFor? name = none ↔
        name ∈ words ∨ ¬IsName name ∨ ∀ i < requestLimit, (a.take i).1 ≠ name) ∧
      (IsName name → name ∉ words →
        ((∀ i < requestLimit, (a.take i).1 ≠ name) ↔
          requestLimit ≤ freeNamesBefore words name)) ∧
      ∀ raw, rawIndex? name = some raw → a.reservedRaws.countP (· < raw) ≤ raw := by
  intro a
  have sound : a.Sound words := (sound_reserving words).afterAll uses
  have unfound : a.requestFor? name = none ↔
      name ∈ words ∨ ¬IsName name ∨ ∀ i < requestLimit, (a.take i).1 ≠ name :=
    requestFor?_eq_none_iff sound room
  refine ⟨?drawn, ?found, unfound, ?far, ?below⟩
  case drawn =>
    intro i small
    rw [requestFor?_eq_some_iff sound room, (take_spec sound i).1]
    exact and_iff_right small
  case found =>
    intro i found
    obtain ⟨small, rfl⟩ := (requestFor?_eq_some_iff sound room).1 found
    refine ⟨small, ?_⟩
    rw [freeNamesBefore_spell]
    exact (isNthFree_freeRaw (freeRaw_lt_indexLimit room small)).2
  case far =>
    intro isName unreserved
    have place := requestFor?_of_isName sound room isName unreserved
    rw [or_iff_right unreserved, or_iff_right (not_not.2 isName), place] at unfound
    rw [← unfound]
    simp
  case below =>
    intro raw read
    have bound := (rawIndex?_eq_some_iff.1 read).1
    have whole := countP_isFree_add words bound.le
    rw [sound.reservedRaws]
    omega

/-- A word right before the name, one after it, and a text that is no name. -/
theorem requestFor?_inverts_take_between_words :
    let words := ["c", "e", "9lives"]
    let a := (reserving words).afterAll [.index 2, .search "d", .number (-1), .index 3]
    (reserving words).reservedRaws.length + requestLimit ≤ indexLimit ∧ 2 < requestLimit ∧
      a.requestFor? "d" = some 2 ∧ (a.take 2).1 = "d" ∧ a.requestFor? "9lives" = none := by
  intro words a
  have room : (reserving words).reservedRaws.length + requestLimit ≤ indexLimit := by
    decide +kernel
  have found : a.requestFor? "d" = some 2 := by decide +kernel
  have inverse := requestFor?_inverts_take words room
    [.index 2, .search "d", .number (-1), .index 3]
  exact ⟨room, by decide, found, ((inverse "d").1 2 (by decide)).1 found,
    (inverse "9lives").2.2.1.2 (.inl (by decide))⟩

end Allocator

end EnumMacros.Identifier
