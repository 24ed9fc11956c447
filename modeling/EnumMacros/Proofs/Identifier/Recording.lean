import EnumMacros.Command.Run
import EnumMacros.Proofs.Identifier.Enumeration
import Mathlib.Data.List.Sort

/-! What an allocator records. Of the indices that have been asked for, its ledger holds those at
which a reserved word comes up when the words before have been skipped, in increasing order and no
others: `ledger_records_collisions`. A step finds the ledger in keeping with the cache, so that it
never counts a word that comes up at the index itself before it has met it. -/

namespace EnumMacros.Identifier

/-! ### Where words come up -/

/-- The requested index at which the word at a raw index comes up, when all words before it have
been skipped. -/
def collision (words : List String) (raw : Nat) : Nat := raw - (wordRaws words).countP (· < raw)

/-- The number of words that come up before a requested index. -/
def passed (words : List String) (i : Nat) : Nat :=
  (wordRaws words).countP fun raw => collision words raw < i

theorem collisionsFrom_eq_map {raws : List Nat} (sorted : raws.Pairwise (· < ·)) (k : Nat) :
    collisionsFrom k raws = raws.map fun raw => raw - (k + raws.countP (· < raw)) := by
  induction raws generalizing k with
  | nil => rfl
  | cons raw raws ih =>
    obtain ⟨least, rest⟩ := List.pairwise_cons.1 sorted
    have first : (raw :: raws).countP (· < raw) = 0 := by
      apply countP_lt_eq_zero
      intro other member
      rcases List.mem_cons.1 member with rfl | member
      · exact le_refl other
      · exact (least other member).le
    rw [collisionsFrom, ih rest, List.map_cons, first, Nat.add_zero]
    refine congrArg _ (List.map_congr_left fun other member => ?_)
    rw [List.countP_cons_of_pos (by simpa using least other member)]
    omega

theorem collisionsFrom_wordRaws (words : List String) :
    collisionsFrom 0 (wordRaws words) = (wordRaws words).map (collision words) := by
  rw [collisionsFrom_eq_map (pairwise_wordRaws words)]
  simp only [Nat.zero_add]
  rfl

theorem countP_lt_collisions (words : List String) (i : Nat) :
    (collisionsFrom 0 (wordRaws words)).countP (· < i) = passed words i := by
  rw [collisionsFrom_wordRaws, List.countP_map]
  rfl

/-- The word itself is among those that come up until its index, but not among those before. -/
theorem passed_lt_skipped {words : List String} {raw : Nat} (member : raw ∈ wordRaws words) :
    passed words (collision words raw) < skipped words (collision words raw) := by
  have apart := List.perm_cons_erase member
  rw [skipped, collisionsFrom_wordRaws, List.countP_map, passed, apart.countP_eq, apart.countP_eq,
    List.countP_cons_of_neg (by simp), List.countP_cons_of_pos (by simp)]
  apply Nat.lt_succ_of_le
  apply List.countP_mono_left
  intro other _ before
  simp only [decide_eq_true_eq, Function.comp_apply] at before ⊢
  exact before.le

/-- Where a word comes up, the identifier found first is a word: it may be an earlier one that comes
up there too. -/
theorem not_isFree_collision {words : List String} {raw : Nat} (member : raw ∈ wordRaws words) :
    ¬IsFree words (collision words raw + passed words (collision words raw)) := by
  intro free
  have outside : collision words raw + passed words (collision words raw) ∉ wordRaws words :=
    fun inside => (mem_wordRaws.1 inside).2 free
  have same := countP_lt_eq_countP_le (k := 0) (pairwise_wordRaws words) (fun _ _ => Nat.zero_le _)
    (by rwa [countP_lt_collisions])
  rw [countP_lt_collisions] at same
  exact (passed_lt_skipped member).ne same

/-- Of two adjacent words the second is reached one raw index later, with one more word skipped. -/
theorem collision_succ {words : List String} {raw : Nat} (member : raw ∈ wordRaws words) :
    collision words (raw + 1) = collision words raw := by
  have apart := List.perm_cons_erase member
  have rest : ((wordRaws words).erase raw).countP (· < raw + 1) =
      ((wordRaws words).erase raw).countP (· < raw) := by
    apply List.countP_congr
    intro other inside
    have different := ((nodup_wordRaws words).mem_erase_iff.1 inside).1
    simp only [decide_eq_true_eq]
    omega
  rw [collision, collision, apart.countP_eq, apart.countP_eq,
    List.countP_cons_of_pos (by simp), List.countP_cons_of_neg (by simp), rest]
  omega

/-! ### Ledgers -/

theorem sublist_enter (n : Nat) (ms : List Nat) : ms.Sublist (enter n ms) := by
  induction ms with
  | nil => exact List.nil_sublist _
  | cons m ms ih =>
    unfold enter
    split_ifs
    · exact List.sublist_cons_self n _
    · exact List.Sublist.refl _
    · exact ih.cons_cons m

/-- The index that a use comes to. A negative number comes to none, nor does a place past the last
one of a scope. -/
def Use.requested? : Use → Option Nat
  | .number (.ofNat i) => some i
  | .index i => some i
  | .scoped scope i => Scope.advance? scope.skips i
  | .number (.negSucc _) | .search _ | .test _ => none

/-- The indices that have been asked for. -/
def requests (uses : List Use) : List Nat := uses.filterMap Use.requested?

namespace Allocator

/-- Taking enters an index into the ledger when its identifier is not known yet and the first one
found is reserved. -/
theorem ledger_take (a : Allocator) (i : Nat) :
    (a.take i).2.ledger =
      if a.cache.find? i = none ∧ a.reserves (spell (i + a.skip i)) = true then enter i a.ledger
      else a.ledger := by
  unfold take
  split
  · next name found => rw [if_neg fun met => by simp [found] at met]
  · next missing =>
    simp only [missing, true_and]
    split_ifs
    · rfl
    · rfl

theorem isSome_find?_keep (a : Allocator) (i k : Nat) (name : String) :
    ((a.keep i name).cache.find? k).isSome ↔ k = i ∨ (a.cache.find? k).isSome := by
  rw [keep, Memory.find?_keep]
  split_ifs with same <;> simp [same]

theorem isSome_find?_take (a : Allocator) (i k : Nat) :
    ((a.take i).2.cache.find? k).isSome ↔ k = i ∨ (a.cache.find? k).isSome := by
  unfold take
  split
  · next name found =>
    rw [or_iff_right_of_imp]
    rintro rfl
    rw [found]
    rfl
  · simp only
    split_ifs
    · exact isSome_find?_keep (a.remember i) i k _
    · exact isSome_find?_keep a i k _

theorem ledger_sublist_take (a : Allocator) (i : Nat) : a.ledger.Sublist (a.take i).2.ledger := by
  rw [ledger_take]
  split_ifs
  · exact sublist_enter i a.ledger
  · exact List.Sublist.refl _

/-- What uses that came to some indices leave behind: the cache holds just those, and the ledger
those of them at which a word comes up. -/
structure Records (words : List String) (asked : List Nat) (a : Allocator) : Prop
    extends Sound words a where
  sorted : a.ledger.Pairwise (· < ·)
  collided : ∀ i, i ∈ a.ledger ↔ i ∈ asked ∧ ¬IsFree words (i + passed words i)
  kept : ∀ i, (a.cache.find? i).isSome ↔ i ∈ asked

variable {words : List String} {asked : List Nat} {a : Allocator}

theorem records_reserving (words : List String) : Records words [] (reserving words) :=
  { toSound := sound_reserving words
    sorted := .nil
    collided := by simp [reserving]
    kept := by simp [reserving] }

theorem Records.congr (h : Records words asked a) {others : List Nat}
    (same : ∀ i, i ∈ others ↔ i ∈ asked) : Records words others a :=
  { toSound := h.toSound
    sorted := h.sorted
    collided := fun i => by rw [h.collided, same]
    kept := fun i => by rw [h.kept, same] }

/-- An index that has not been asked for is not in the ledger yet. -/
theorem Records.skip_eq (h : Records words asked a) {i : Nat} (new : i ∉ asked) :
    a.skip i = passed words i := by
  have absent : i ∉ a.ledger := fun member => new ((h.collided i).1 member).1
  rw [skip, if_neg (by simpa using absent), collisions_eq, h.reservedRaws, countP_lt_collisions]

theorem Records.take (h : Records words asked a) (i : Nat) :
    Records words (i :: asked) (a.take i).2 := by
  refine ⟨(take_spec h.toSound i).2, ?sorted, fun k => ?collided, fun k => ?kept⟩
  case sorted =>
    rw [ledger_take]
    split_ifs
    · exact pairwise_enter h.sorted
    · exact h.sorted
  case kept =>
    rw [isSome_find?_take, h.kept, List.mem_cons]
  case collided =>
    have missing : a.cache.find? i = none ↔ i ∉ asked := by
      rw [← h.kept i, Option.not_isSome_iff_eq_none]
    -- An index that has been met before is in the cache, and so the ledger does not change again.
    have entered : a.cache.find? i = none ∧ a.reserves (spell (i + a.skip i)) = true ↔
        i ∉ asked ∧ ¬IsFree words (i + passed words i) := by
      rw [missing]
      apply and_congr_right
      intro new
      rw [reserves, h.reserved, h.skip_eq new, IsFree, not_not, List.contains_iff_mem]
    have member : k ∈ (a.take i).2.ledger ↔
        k ∈ a.ledger ∨ k = i ∧ i ∉ asked ∧ ¬IsFree words (i + passed words i) := by
      rw [ledger_take, ← entered]
      split_ifs with now
      · rw [mem_enter, and_iff_left now, or_comm]
      · rw [or_iff_left (fun meets => now meets.2)]
    rw [member, h.collided, List.mem_cons]
    by_cases same : k = i
    · subst same
      by_cases met : k ∈ asked
      · simp [met]
      · simp [met]
    · simp [same]

theorem Records.after (h : Records words asked a) (use : Use) :
    Records words (asked ++ use.requested?.toList) (a.after use) := by
  have asking (i : Nat) : Records words (asked ++ [i]) (a.take i).2 :=
    (h.take i).congr fun k => by rw [List.mem_append, List.mem_singleton, List.mem_cons, or_comm]
  have idle : Records words (asked ++ []) a := by rwa [List.append_nil]
  match use with
  | .number (.ofNat i) => exact asking i
  | .number (.negSucc _) => exact idle
  | .index i => exact asking i
  | .scoped scope i =>
    show Records words (asked ++ (Scope.advance? scope.skips i).toList) (scope.take? a i).2
    unfold Scope.take?
    split
    · next index reached => rw [reached]; exact asking index
    · next none => rw [none]; exact idle
  | .search _ | .test _ => exact idle

theorem Records.afterAll (h : Records words asked a) (uses : List Use) :
    Records words (asked ++ requests uses) (a.afterAll uses) := by
  induction uses generalizing a asked with
  | nil => rwa [requests, List.filterMap_nil, List.append_nil]
  | cons use uses ih =>
    have rest := ih (h.after use)
    have split : requests (use :: uses) = use.requested?.toList ++ requests uses := by
      rw [requests, List.filterMap_cons]
      cases use.requested? with
      | none => rfl
      | some i => rfl
    rwa [split, ← List.append_assoc]

theorem records_afterAll (words : List String) (uses : List Use) :
    Records words (requests uses) ((reserving words).afterAll uses) :=
  (records_reserving words).afterAll uses

/-! ### Growth -/

theorem ledger_sublist_after (a : Allocator) (use : Use) :
    a.ledger.Sublist (a.after use).ledger := by
  match use with
  | .number (.ofNat i) => exact ledger_sublist_take a i
  | .index i => exact ledger_sublist_take a i
  | .scoped scope i =>
    show a.ledger.Sublist (scope.take? a i).2.ledger
    unfold Scope.take?
    split
    · next index _ => exact ledger_sublist_take a index
    · exact List.Sublist.refl _
  | .number (.negSucc _) | .search _ | .test _ => exact List.Sublist.refl _

theorem ledger_sublist_afterAll (a : Allocator) (uses : List Use) :
    a.ledger.Sublist (a.afterAll uses).ledger := by
  induction uses generalizing a with
  | nil => exact List.Sublist.refl _
  | cons use uses ih => exact (ledger_sublist_after a use).trans (ih (a.after use))

/-- After any uses the ledger holds, in increasing order, the indices asked for whose identifier is
reserved when only the words that come up before have been skipped. It grows with every use and does
not depend on how often or in which order the indices were asked for; the index at which a word
comes up is there as soon as it has been asked for, and the same for adjacent words. A negative
number is refused and leaves the allocator as it is. -/
theorem ledger_records_collisions (words : List String) (uses : List Use) :
    let a := (reserving words).afterAll uses
    a.ledger.Pairwise (· < ·) ∧
      (∀ i, i ∈ a.ledger ↔ i ∈ requests uses ∧ spell (i + passed words i) ∈ words) ∧
      (∀ more, a.ledger.Sublist (a.afterAll more).ledger) ∧
      (∀ uses', (∀ i, i ∈ requests uses' ↔ i ∈ requests uses) →
        ((reserving words).afterAll uses').ledger = a.ledger) ∧
      (∀ raw < indexLimit, spell raw ∈ words →
        (collision words raw ∈ a.ledger ↔ collision words raw ∈ requests uses) ∧
        collision words (raw + 1) = collision words raw) ∧
      ∀ i < 0, a.take? i = (none, a) ∧ (Fault.negativeIndex i).code = "E0001" ∧
        ∀ text texts, Text.readSigned Command.indexBound text.toList = some i →
          Command.identifiersAt a (text :: texts) = ([], some (.negativeIndex i)) := by
  intro a
  have records : Records words (requests uses) a := records_afterAll words uses
  have collided (i : Nat) :
      i ∈ a.ledger ↔ i ∈ requests uses ∧ spell (i + passed words i) ∈ words := by
    rw [records.collided, IsFree, not_not]
  refine ⟨records.sorted, collided, ledger_sublist_afterAll a, ?same, ?shared, ?negative⟩
  case same =>
    intro uses' same
    have other := (records_afterAll words uses').congr fun i => (same i).symm
    refine other.sorted.eq_of_mem_iff records.sorted fun i => ?_
    rw [other.collided, records.collided]
  case shared =>
    intro raw small reserved
    have member : raw ∈ wordRaws words := mem_wordRaws.2 ⟨small, not_not.2 reserved⟩
    refine ⟨?_, collision_succ member⟩
    rw [records.collided]
    exact and_iff_left (not_isFree_collision member)
  case negative =>
    intro i negative
    have refused : a.take? i = (none, a) := by
      cases i with
      | ofNat n => exact absurd negative (by simp)
      | negSucc n => rfl
    refine ⟨refused, rfl, fun text texts read => ?_⟩
    rw [Command.identifiersAt, read]
    simp only [refused]

/-- Two adjacent words share the index that is asked for twice; the index after it has no word of
its own. -/
theorem ledger_records_adjacent_words :
    let words := ["b", "c", "9lives"]
    let uses : List Use := [.index 2, .scoped ⟨[0]⟩ 0, .number (-1), .index 1]
    let a := (reserving words).afterAll uses
    spell 1 ∈ words ∧ spell 2 ∈ words ∧ collision words 1 = 1 ∧ 1 ∈ a.ledger ∧ 2 ∉ a.ledger := by
  intro words uses a
  have reserved : spell 1 ∈ words ∧ spell 2 ∈ words := by decide +kernel
  have first : collision words 1 = 1 := by decide +kernel
  obtain ⟨-, member, -, -, shared, -⟩ := ledger_records_collisions words uses
  have entered := (shared 1 (by decide) reserved.1).1
  rw [first] at entered
  refine ⟨reserved.1, reserved.2, first, entered.2 (by decide), fun inside => ?_⟩
  exact absurd ((member 2).1 inside).2 (by decide +kernel)

end Allocator

end EnumMacros.Identifier
