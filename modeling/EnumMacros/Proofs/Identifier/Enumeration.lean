import EnumMacros.Identifier.Scope
import EnumMacros.Proofs.Identifier.Ordering
import Mathlib.Data.List.Perm.Basic
import Mathlib.Data.List.Range
import Mathlib.Data.Nat.Count

/-! What an allocator gives out. Whatever it has been asked before, it answers a requested index `i`
with the `i`-th identifier that is not reserved, in the order of generation: `take_enumerates`. The
count behind it is on increasing lists: of the words that are skipped, each comes up at its own raw
index less the number of words before it. -/

namespace EnumMacros.Identifier

/-! ### Counting collisions -/

/-- The requested indices at which increasing raw indices come up when `k` words have been skipped
before them. -/
def collisionsFrom : Nat → List Nat → List Nat
  | _, [] => []
  | k, raw :: raws => (raw - k) :: collisionsFrom (k + 1) raws

theorem mapIdx_eq_collisionsFrom (raws : List Nat) (k : Nat) :
    (raws.mapIdx fun j raw => raw - (k + j)) = collisionsFrom k raws := by
  induction raws generalizing k with
  | nil => rfl
  | cons raw raws ih =>
    rw [List.mapIdx_cons, collisionsFrom, ← ih (k + 1), Nat.add_zero]
    simp only [Nat.add_assoc, Nat.add_comm 1]

theorem collisions_eq (a : Allocator) : a.collisions = collisionsFrom 0 a.reservedRaws := by
  rw [← mapIdx_eq_collisionsFrom]
  simp only [Nat.zero_add]
  rfl

theorem length_collisionsFrom (k : Nat) (raws : List Nat) :
    (collisionsFrom k raws).length = raws.length := by
  induction raws generalizing k with
  | nil => rfl
  | cons raw raws ih => rw [collisionsFrom, List.length_cons, ih, List.length_cons]

/-- Skipping one more word each time, increasing raw indices come up no earlier than the first. -/
theorem le_of_mem_collisionsFrom {raws : List Nat} {k i : Nat} (sorted : raws.Pairwise (· < ·))
    (above : ∀ raw ∈ raws, i + k ≤ raw) : ∀ e ∈ collisionsFrom k raws, i ≤ e := by
  induction raws generalizing k with
  | nil => simp [collisionsFrom]
  | cons raw raws ih =>
    obtain ⟨least, rest⟩ := List.pairwise_cons.1 sorted
    have first := above raw List.mem_cons_self
    rw [collisionsFrom, List.forall_mem_cons]
    refine ⟨by omega, ih rest fun other member => ?_⟩
    have := least other member
    omega

theorem countP_lt_eq_zero {xs : List Nat} {n : Nat} (above : ∀ x ∈ xs, n ≤ x) :
    xs.countP (· < n) = 0 := by
  rw [List.countP_eq_zero]
  intro x member
  simpa using above x member

/-- Once all words are skipped that come up until the requested index, the raw index reached is none
of theirs, and exactly those words lie below it. -/
theorem reached_through {raws : List Nat} {k : Nat} (i : Nat) (sorted : raws.Pairwise (· < ·))
    (above : ∀ raw ∈ raws, k ≤ raw) :
    i + k + (collisionsFrom k raws).countP (· ≤ i) ∉ raws ∧
      raws.countP (· < i + k + (collisionsFrom k raws).countP (· ≤ i)) =
        (collisionsFrom k raws).countP (· ≤ i) := by
  induction raws generalizing k with
  | nil => simp [collisionsFrom]
  | cons raw raws ih =>
    obtain ⟨least, rest⟩ := List.pairwise_cons.1 sorted
    have first := above raw List.mem_cons_self
    by_cases skipped : raw - k ≤ i
    · obtain ⟨free, below⟩ := ih rest fun other member =>
        Nat.succ_le_of_lt (first.trans_lt (least other member))
      have count : (collisionsFrom k (raw :: raws)).countP (· ≤ i) =
          (collisionsFrom (k + 1) raws).countP (· ≤ i) + 1 := by
        rw [collisionsFrom, List.countP_cons_of_pos (by simpa using skipped)]
      have reached : i + k + ((collisionsFrom (k + 1) raws).countP (· ≤ i) + 1) =
          i + (k + 1) + (collisionsFrom (k + 1) raws).countP (· ≤ i) := by omega
      rw [count, reached]
      constructor
      · rw [List.mem_cons, not_or]
        exact ⟨by omega, free⟩
      · rw [List.countP_cons_of_pos (by simp; omega), below]
    · have late : ∀ e ∈ collisionsFrom k (raw :: raws), i + 1 ≤ e := by
        refine le_of_mem_collisionsFrom sorted (List.forall_mem_cons.2 ⟨by omega, ?_⟩)
        intro other member
        have := least other member
        omega
      have none : (collisionsFrom k (raw :: raws)).countP (· ≤ i) = 0 := by
        rw [← countP_lt_eq_zero late]
        simp only [Nat.lt_succ_iff]
      have beyond : ∀ other ∈ raw :: raws, i + k + 1 ≤ other := by
        refine List.forall_mem_cons.2 ⟨by omega, fun other member => ?_⟩
        have := least other member
        omega
      rw [none, Nat.add_zero]
      refine ⟨fun member => ?_, countP_lt_eq_zero fun other member => ?_⟩
      · have := beyond _ member
        omega
      · exact Nat.le_of_succ_le (beyond other member)

/-- Where the raw index reached by skipping the earlier words is no word's, no word comes up at the
requested index itself. -/
theorem countP_lt_eq_countP_le {raws : List Nat} {k i : Nat} (sorted : raws.Pairwise (· < ·))
    (above : ∀ raw ∈ raws, k ≤ raw)
    (free : i + k + (collisionsFrom k raws).countP (· < i) ∉ raws) :
    (collisionsFrom k raws).countP (· < i) = (collisionsFrom k raws).countP (· ≤ i) := by
  induction raws generalizing k with
  | nil => rfl
  | cons raw raws ih =>
    obtain ⟨least, rest⟩ := List.pairwise_cons.1 sorted
    have first := above raw List.mem_cons_self
    have higher : ∀ other ∈ raws, k + 1 ≤ other := fun other member =>
      Nat.succ_le_of_lt (first.trans_lt (least other member))
    rcases Nat.lt_trichotomy (raw - k) i with earlier | here | later
    · rw [collisionsFrom, List.countP_cons_of_pos (by simpa using earlier)] at free
      rw [collisionsFrom, List.countP_cons_of_pos (by simpa using earlier),
        List.countP_cons_of_pos (by simpa using earlier.le), ih rest higher]
      intro member
      refine free (List.mem_cons_of_mem raw ?_)
      rwa [show ∀ n, i + k + (n + 1) = i + (k + 1) + n by omega]
    · have none : (collisionsFrom k (raw :: raws)).countP (· < i) = 0 := by
        refine countP_lt_eq_zero (le_of_mem_collisionsFrom sorted ?_)
        refine List.forall_mem_cons.2 ⟨by omega, fun other member => ?_⟩
        have := least other member
        omega
      rw [none] at free
      exact absurd (List.mem_cons.2 (.inl (by omega))) free
    · have late : ∀ e ∈ collisionsFrom k (raw :: raws), i + 1 ≤ e := by
        refine le_of_mem_collisionsFrom sorted (List.forall_mem_cons.2 ⟨by omega, ?_⟩)
        intro other member
        have := least other member
        omega
      rw [countP_lt_eq_zero fun e member => Nat.le_of_succ_le (late e member)]
      rw [← countP_lt_eq_zero late]
      simp only [Nat.lt_succ_iff]

/-- In a list of increasing numbers, none is smaller than its place. -/
theorem le_of_getElem?_pairwise {raws : List Nat} (sorted : raws.Pairwise (· < ·)) {k raw : Nat}
    (found : raws[k]? = some raw) : k ≤ raw := by
  induction k generalizing raw with
  | zero => exact Nat.zero_le raw
  | succ k ih =>
    obtain ⟨bound, rfl⟩ := List.getElem?_eq_some_iff.1 found
    have before : raws[k]? = some raws[k] := List.getElem?_eq_getElem (by omega)
    have less : raws[k] < raws[k + 1] := List.pairwise_iff_getElem.1 sorted _ _ _ _ (by omega)
    exact Nat.succ_le_of_lt ((ih before).trans_lt less)

/-! ### Free raw indices -/

/-- The raw index has an identifier outside the words. -/
def IsFree (words : List String) (raw : Nat) : Prop := spell raw ∉ words

instance (words : List String) (raw : Nat) : Decidable (IsFree words raw) :=
  inferInstanceAs (Decidable (spell raw ∉ words))

/-- The raw index is free, and so are exactly `i` smaller ones. -/
def IsNthFree (words : List String) (i raw : Nat) : Prop :=
  IsFree words raw ∧ (List.range raw).countP (IsFree words ·) = i

instance (words : List String) (i raw : Nat) : Decidable (IsNthFree words i raw) :=
  inferInstanceAs (Decidable (_ ∧ _))

/-- The raw indices of the words that are identifiers. -/
def wordRaws (words : List String) : List Nat := (Allocator.reserving words).reservedRaws

theorem pairwise_wordRaws (words : List String) : (wordRaws words).Pairwise (· < ·) :=
  pairwise_increasing _

theorem nodup_wordRaws (words : List String) : (wordRaws words).Nodup :=
  List.Pairwise.imp (S := (· ≠ ·)) Nat.ne_of_lt (pairwise_wordRaws words)

theorem mem_wordRaws {words : List String} {raw : Nat} :
    raw ∈ wordRaws words ↔ raw < indexLimit ∧ ¬IsFree words raw := by
  simp only [wordRaws, Allocator.reserving, mem_increasing, List.mem_filterMap, IsFree, not_not,
    rawIndex?_eq_some_iff]
  constructor
  · rintro ⟨word, member, small, rfl⟩
    exact ⟨small, member⟩
  · rintro ⟨small, member⟩
    exact ⟨_, member, small, rfl⟩

theorem length_enter_le (n : Nat) (ms : List Nat) : (enter n ms).length ≤ ms.length + 1 := by
  induction ms with
  | nil => exact le_refl _
  | cons m ms ih =>
    rw [enter]
    split_ifs
    · exact le_refl _
    · exact Nat.le_succ _
    · exact Nat.succ_le_succ ih

theorem length_increasing_le (ns : List Nat) : (increasing ns).length ≤ ns.length := by
  induction ns with
  | nil => exact le_refl _
  | cons n ns ih => exact (length_enter_le n _).trans (Nat.succ_le_succ ih)

theorem length_wordRaws_le (words : List String) : (wordRaws words).length ≤ words.length :=
  (length_increasing_le _).trans (List.length_filterMap_le _ _)

/-- The number of words that come up until a requested index. -/
def skipped (words : List String) (i : Nat) : Nat :=
  (collisionsFrom 0 (wordRaws words)).countP (· ≤ i)

/-- The raw index of the `i`-th identifier that is none of the words. -/
def freeRaw (words : List String) (i : Nat) : Nat := i + skipped words i

theorem skipped_le (words : List String) (i : Nat) : skipped words i ≤ (wordRaws words).length := by
  apply List.countP_le_length.trans
  rw [length_collisionsFrom]

theorem freeRaw_lt_indexLimit {words : List String}
    (room : (wordRaws words).length + requestLimit ≤ indexLimit) {i : Nat}
    (small : i < requestLimit) : freeRaw words i < indexLimit := by
  have few := skipped_le words i
  rw [freeRaw]
  omega

theorem skipped_mono (words : List String) {i j : Nat} (h : i ≤ j) :
    skipped words i ≤ skipped words j := by
  apply List.countP_mono_left
  intro e _ le
  simp only [decide_eq_true_eq] at le ⊢
  exact le.trans h

theorem freeRaw_lt (words : List String) {i j : Nat} (h : i < j) :
    freeRaw words i < freeRaw words j :=
  Nat.add_lt_add_of_lt_of_le h (skipped_mono words h.le)

theorem freeRaw_injective (words : List String) {i j : Nat}
    (h : freeRaw words i = freeRaw words j) : i = j := by
  rcases Nat.lt_trichotomy i j with lt | eq | gt
  · exact absurd h (freeRaw_lt words lt).ne
  · exact eq
  · exact absurd h (freeRaw_lt words gt).ne'

theorem freeRaw_not_mem (words : List String) (i : Nat) : freeRaw words i ∉ wordRaws words :=
  (reached_through i (pairwise_wordRaws words) fun _ _ => Nat.zero_le _).1

theorem countP_lt_freeRaw (words : List String) (i : Nat) :
    (wordRaws words).countP (· < freeRaw words i) = skipped words i :=
  (reached_through i (pairwise_wordRaws words) fun _ _ => Nat.zero_le _).2

/-- The raw indices below a bound are free or belong to words. -/
theorem countP_isFree_add (words : List String) {bound : Nat} (small : bound ≤ indexLimit) :
    (List.range bound).countP (IsFree words ·) + (wordRaws words).countP (· < bound) = bound := by
  have same : ((List.range bound).filter fun raw => !decide (IsFree words raw)).Perm
      ((wordRaws words).filter (· < bound)) := by
    refine (List.perm_ext_iff_of_nodup (List.nodup_range.filter _)
      ((nodup_wordRaws words).filter _)).2 fun raw => ?_
    simp only [List.mem_filter, List.mem_range, Bool.not_eq_eq_eq_not, Bool.not_true,
      decide_eq_false_iff_not, mem_wordRaws, decide_eq_true_eq]
    constructor
    · exact fun h => ⟨⟨h.1.trans_le small, h.2⟩, h.1⟩
    · exact fun h => ⟨h.2, h.1.2⟩
  have whole := List.length_eq_countP_add_countP (IsFree words ·) (l := List.range bound)
  rw [List.length_range] at whole
  rw [List.countP_eq_length_filter (l := wordRaws words), ← same.length_eq,
    ← List.countP_eq_length_filter]
  simpa using whole.symm

theorem isFree_freeRaw {words : List String} {i : Nat} (small : freeRaw words i < indexLimit) :
    IsFree words (freeRaw words i) := by
  by_contra taken
  exact freeRaw_not_mem words i (mem_wordRaws.2 ⟨small, taken⟩)

theorem isNthFree_freeRaw {words : List String} {i : Nat} (small : freeRaw words i < indexLimit) :
    IsNthFree words i (freeRaw words i) := by
  refine ⟨isFree_freeRaw small, ?_⟩
  have whole := countP_isFree_add words small.le
  rw [countP_lt_freeRaw] at whole
  simp only [freeRaw] at whole ⊢
  omega

theorem countP_isFree_lt {words : List String} {raw bound : Nat} (free : IsFree words raw)
    (h : raw < bound) :
    (List.range raw).countP (IsFree words ·) < (List.range bound).countP (IsFree words ·) :=
  Nat.count_strict_mono free h

theorem IsNthFree.unique {words : List String} {i raw raw' : Nat} (h : IsNthFree words i raw)
    (h' : IsNthFree words i raw') : raw = raw' :=
  Nat.count_injective h.1 h'.1 (h.2.trans h'.2.symm)

/-! ### Allocators in use -/

/-- A use of an allocator: drawing an identifier by an index that may be negative, by an index, or
by a place of a scope, or asking about a name, which changes nothing. -/
inductive Use
  | number (i : Int)
  | index (i : Nat)
  | scoped (scope : Scope) (i : Nat)
  | search (name : String)
  | test (name : String)

namespace Allocator

/-- The allocator after a use. -/
def after (a : Allocator) : Use → Allocator
  | .number i => (a.take? i).2
  | .index i => (a.take i).2
  | .scoped scope i => (scope.take? a i).2
  | .search _ | .test _ => a

/-- The allocator after some uses, one after the other. -/
def afterAll (a : Allocator) (uses : List Use) : Allocator := uses.foldl after a

/-- What every use keeps: the words, their raw indices, and a cache that holds nothing but right
answers. The ledger is left open, because no answer depends on it. -/
structure Sound (words : List String) (a : Allocator) : Prop where
  reserved : a.reserved = words
  reservedRaws : a.reservedRaws = wordRaws words
  cached : ∀ i name, a.cache.find? i = some name → name = spell (freeRaw words i)

theorem sound_reserving (words : List String) : Sound words (reserving words) :=
  ⟨rfl, rfl, fun i name h => by simp [reserving] at h⟩

theorem skip_of_mem {words : List String} {a : Allocator} (h : Sound words a) {i : Nat}
    (member : i ∈ a.ledger) : a.skip i = skipped words i := by
  rw [skip, if_pos (by simpa using member), collisions_eq, h.reservedRaws]
  rfl

/-- An unreserved candidate is the answer, whether or not its index is in the ledger. -/
theorem freeRaw_of_isFree {words : List String} {a : Allocator} (h : Sound words a) {i : Nat}
    (free : IsFree words (i + a.skip i)) : i + a.skip i = freeRaw words i := by
  by_cases member : i ∈ a.ledger
  · rw [skip_of_mem h member]
    rfl
  · have earlier : a.skip i = (collisionsFrom 0 (wordRaws words)).countP (· < i) := by
      rw [skip, if_neg (by simpa using member), collisions_eq, h.reservedRaws]
    have outside : i + a.skip i ∉ wordRaws words := fun inside => (mem_wordRaws.1 inside).2 free
    rw [earlier] at outside ⊢
    rw [countP_lt_eq_countP_le (k := 0) (pairwise_wordRaws words) (fun _ _ => Nat.zero_le _)
      outside]
    rfl

theorem Sound.remember {words : List String} {a : Allocator} (h : Sound words a) (i : Nat) :
    Sound words (a.remember i) :=
  ⟨h.reserved, h.reservedRaws, h.cached⟩

theorem Sound.keep {words : List String} {a : Allocator} (h : Sound words a) (i : Nat) :
    Sound words (a.keep i (spell (freeRaw words i))) := by
  refine ⟨h.reserved, h.reservedRaws, fun j name recalled => ?_⟩
  simp only [Allocator.keep, Memory.find?_keep] at recalled
  split at recalled
  · next same => rw [same, ← Option.some.inj recalled]
  · exact h.cached j name recalled

/-- The answer to a requested index, and what taking it keeps. -/
theorem take_spec {words : List String} {a : Allocator} (h : Sound words a) (i : Nat) :
    (a.take i).1 = spell (freeRaw words i) ∧ Sound words (a.take i).2 := by
  unfold take
  split
  · next name recalled => exact ⟨h.cached i name recalled, h⟩
  · simp only
    split
    · have recorded : (a.remember i).skip i = skipped words i :=
        skip_of_mem (h.remember i) (mem_enter.2 (.inl rfl))
      rw [recorded]
      exact ⟨rfl, (h.remember i).keep i⟩
    · next unreserved =>
      have free : IsFree words (i + a.skip i) := by
        simpa [reserves, h.reserved, IsFree] using unreserved
      rw [freeRaw_of_isFree h free]
      exact ⟨rfl, h.keep i⟩

theorem Sound.after {words : List String} {a : Allocator} (h : Sound words a) (use : Use) :
    Sound words (a.after use) := by
  match use with
  | .number (.ofNat i) => exact (take_spec h i).2
  | .number (.negSucc _) => exact h
  | .index i => exact (take_spec h i).2
  | .scoped scope i =>
    show Sound words (scope.take? a i).2
    unfold Scope.take?
    split
    · next index _ => exact (take_spec h index).2
    · exact h
  | .search _ | .test _ => exact h

theorem Sound.afterAll {words : List String} {a : Allocator} (h : Sound words a)
    (uses : List Use) : Sound words (a.afterAll uses) := by
  induction uses generalizing a with
  | nil => exact h
  | cons use uses ih => exact ih (h.after use)

/-- An allocator enumerates the identifiers outside its reserved words, whatever it has been used
for: no word is skipped before it can come up, every requested index has exactly one raw index with
as many free ones below it, its identifier is the answer after all uses, and later indices have
later answers. Only words with more raw indices than any memory holds could upset this. -/
theorem take_enumerates (words : List String)
    (room : (reserving words).reservedRaws.length + requestLimit ≤ indexLimit) :
    (∀ k raw : Nat, (reserving words).reservedRaws[k]? = some raw → k ≤ raw) ∧
      ∀ i < requestLimit,
        (∃! raw, IsNthFree words i raw) ∧
          (∀ raw, IsNthFree words i raw → raw < indexLimit ∧
            ∀ uses, (((reserving words).afterAll uses).take i).1 = spell raw) ∧
          (∀ uses, (((reserving words).afterAll uses).take i).1 ∉ words) ∧
          ∀ j < i, ∀ uses uses', compareNames (((reserving words).afterAll uses).take j).1
            (((reserving words).afterAll uses').take i).1 = .lt := by
  have answer (uses : List Use) (i : Nat) :
      (((reserving words).afterAll uses).take i).1 = spell (freeRaw words i) :=
    (take_spec ((sound_reserving words).afterAll uses) i).1
  refine ⟨fun k raw found => ?_, fun i small => ?_⟩
  · have sorted : (reserving words).reservedRaws.Pairwise (· < ·) := pairwise_wordRaws words
    exact le_of_getElem?_pairwise sorted found
  · have bound : freeRaw words i < indexLimit := freeRaw_lt_indexLimit room small
    have nth := isNthFree_freeRaw bound
    refine ⟨⟨_, nth, fun raw other => other.unique nth⟩, fun raw other => ?_, fun uses => ?_,
      fun j lt uses uses' => ?_⟩
    · rw [other.unique nth]
      exact ⟨bound, fun uses => answer uses i⟩
    · rw [answer]
      exact nth.1
    · rw [answer, answer, compareNames_spell]
      exact Nat.compare_eq_lt.2 (freeRaw_lt words lt)

/-- Two adjacent reserved words and one apart, with a repeated one, a text that is no identifier and
one that lies past the raw indices, after uses on both sides of the index. -/
theorem take_enumerates_adjacent_words :
    let words := ["b", "1x", "a", "d", "b", "aaaaaaaaaaaaaaaaaaaaaaaaaaaaa"]
    let uses : List Use := [.index 1, .number (-1), .scoped ⟨[0, 1]⟩ 0, .index 0, .search "c"]
    (reserving words).reservedRaws.length + requestLimit ≤ indexLimit ∧ 0 < requestLimit ∧
      IsNthFree words 0 2 ∧
      (((reserving words).afterAll uses).take 0).1 = "c" := by
  intro words uses
  have room : (reserving words).reservedRaws.length + requestLimit ≤ indexLimit := by
    decide +kernel
  have nth : IsNthFree words 0 2 := by decide +kernel
  refine ⟨room, by decide, nth, ?_⟩
  rw [(((take_enumerates words room).2 0 (by decide)).2.1 2 nth).2 uses]
  decide +kernel

end Allocator

end EnumMacros.Identifier
