import EnumMacros.Proofs.Identifier.Scoping

/-! A scope is worth as much as more reserved words. The walk over the indices to skip ends at the
index that has as many others below it as the place asked for, `advance?_eq_some_iff`. Such an index
belongs to the identifier that an allocator with the names of the scope among its reserved words
gives out at that place, `advance?_of_eq_some_iff`. -/

namespace EnumMacros.Identifier

/-! ### Where the walk ends -/

section Walk

variable {n : Nat} {ns : List Nat}

/-- Leaving out one more number takes one away above it. -/
theorem count_notMem_cons (new : n ∉ ns) (bound : Nat) :
    Nat.count (· ∉ ns) bound = Nat.count (· ∉ n :: ns) bound + if n < bound then 1 else 0 := by
  induction bound with
  | zero => rfl
  | succ bound ih =>
    rw [Nat.count_succ, Nat.count_succ, ih]
    by_cases here : bound = n
    · subst here
      simp [new]
    · have same : bound ∈ n :: ns ↔ bound ∈ ns := by rw [List.mem_cons, or_iff_right here]
      simp only [same]
      split_ifs <;> omega

/-- A number that has been passed is left out at the price of one place. -/
theorem notMem_cons_and_count_iff (new : n ∉ ns) {i m : Nat} (passed : n ≤ i) :
    m ∉ n :: ns ∧ Nat.count (· ∉ n :: ns) m = i ↔ m ∉ ns ∧ Nat.count (· ∉ ns) m = i + 1 := by
  have fewer := count_notMem_cons new m
  have most : Nat.count (· ∉ n :: ns) m ≤ m := Nat.count_le _
  have most' : Nat.count (· ∉ ns) m ≤ m := Nat.count_le _
  rw [List.mem_cons, not_or]
  constructor
  · rintro ⟨⟨other, free⟩, count⟩
    rw [if_pos (by omega)] at fewer
    exact ⟨free, by omega⟩
  · rintro ⟨free, count⟩
    rw [if_pos (by omega)] at fewer
    exact ⟨⟨by omega, free⟩, by omega⟩

end Walk

namespace Scope

/-- The walk ends below the bound at the index outside those to skip that has exactly as many
others below it as the place asked for. -/
theorem advance?_eq_some_iff {skips : List Nat} (sorted : skips.Pairwise (· < ·)) {i m : Nat}
    (small : i < requestLimit) :
    advance? skips i = some m ↔
      m < requestLimit ∧ m ∉ skips ∧ Nat.count (· ∉ skips) m = i := by
  induction skips generalizing i with
  | nil =>
    rw [advance?, Option.some.injEq, Nat.count_of_forall fun _ _ => List.not_mem_nil]
    constructor
    · rintro rfl
      exact ⟨small, List.not_mem_nil, rfl⟩
    · exact fun ends => ends.2.2.symm
  | cons skip skips ih =>
    obtain ⟨least, rest⟩ := List.pairwise_cons.1 sorted
    have new : skip ∉ skips := fun member => lt_irrefl skip (least skip member)
    rw [advance?]
    split_ifs with before next
    · have outside : ∀ k ≤ i, k ∉ skip :: skips := by
        intro k below member
        rcases List.mem_cons.1 member with rfl | member
        · omega
        · have := least k member
          omega
      have all : Nat.count (· ∉ skip :: skips) i = i :=
        Nat.count_of_forall fun k below => outside k below.le
      rw [Option.some.injEq]
      constructor
      · rintro rfl
        exact ⟨small, outside i le_rfl, all⟩
      · rintro ⟨-, free, count⟩
        exact Nat.count_injective (outside i le_rfl) free (all.trans count.symm)
    · rw [ih rest next, notMem_cons_and_count_iff new (Nat.not_lt.1 before)]
    · rw [notMem_cons_and_count_iff new (Nat.not_lt.1 before)]
      constructor
      · exact fun none => absurd none (by simp)
      · rintro ⟨below, -, count⟩
        have most : Nat.count (· ∉ skips) m ≤ m := Nat.count_le _
        omega

end Scope

/-! ### Names to leave out as reserved words -/

section Words

variable {words : List String}

/-- The free raw indices below the `m`-th one are those before it. -/
theorem filter_isFree_perm {m : Nat} (small : freeRaw words m < indexLimit) :
    ((List.range (freeRaw words m)).filter (IsFree words ·)).Perm
      ((List.range m).map (freeRaw words)) := by
  have nodup : ((List.range m).map (freeRaw words)).Nodup :=
    List.Nodup.map (fun _ _ => freeRaw_injective words) List.nodup_range
  refine (List.perm_ext_iff_of_nodup (List.nodup_range.filter _) nodup).2 fun raw => ?_
  simp only [List.mem_filter, List.mem_range, decide_eq_true_eq, List.mem_map]
  constructor
  · rintro ⟨below, free⟩
    have fewer := countP_isFree_lt free below
    rw [(isNthFree_freeRaw small).2] at fewer
    refine ⟨_, fewer, ?_⟩
    have nth := isNthFree_freeRaw ((freeRaw_lt words fewer).trans small)
    exact nth.unique ⟨free, rfl⟩
  · rintro ⟨k, before, rfl⟩
    have below := freeRaw_lt words before
    exact ⟨below, isFree_freeRaw (below.trans small)⟩

theorem isFree_append {names : List String} {raw : Nat} :
    IsFree (words ++ names) raw ↔ IsFree words raw ∧ IsFree names raw := by
  rw [IsFree, List.mem_append, not_or, IsFree, IsFree]

/-- Among the free raw indices, those outside the names as well are counted by their places. -/
theorem count_isFree_append (names : List String) {m : Nat}
    (small : freeRaw words m < indexLimit) :
    (List.range (freeRaw words m)).countP (IsFree (words ++ names) ·) =
      Nat.count (fun k => IsFree names (freeRaw words k)) m := by
  have both (raw : Nat) : decide (IsFree (words ++ names) raw) =
      (decide (IsFree names raw) && decide (IsFree words raw)) := by
    rw [Bool.eq_iff_iff, Bool.and_eq_true, decide_eq_true_eq, decide_eq_true_eq, decide_eq_true_eq,
      isFree_append, and_comm]
  simp only [both]
  rw [← List.countP_filter, (filter_isFree_perm small).countP_eq, List.countP_map]
  rfl

end Words

/-! ### The identifiers of a scope -/

variable {words names : List String} {a : Allocator}

theorem length_wordRaws_append (words names : List String) :
    (wordRaws words).length ≤ (wordRaws (words ++ names)).length := by
  refine ((nodup_wordRaws words).subperm fun raw member => ?_).length_le
  obtain ⟨small, taken⟩ := mem_wordRaws.1 member
  refine mem_wordRaws.2 ⟨small, fun free => taken ?_⟩
  exact fun word => free (List.mem_append_left names word)

/-- An index is among those to skip when its identifier is one of the names. -/
theorem Scope.mem_skips_of_iff (sound : a.Sound words)
    (room : (wordRaws words).length + requestLimit ≤ indexLimit) {k : Nat} :
    k ∈ (of a names).skips ↔ k < requestLimit ∧ ¬IsFree names (freeRaw words k) := by
  simp only [of, mem_increasing, List.mem_filterMap, Allocator.requestFor?_eq_some_iff sound room,
    IsFree, not_not]
  constructor
  · rintro ⟨name, member, small, rfl⟩
    exact ⟨small, member⟩
  · rintro ⟨small, member⟩
    exact ⟨_, member, small, rfl⟩

/-- The walk ends at an index below the bound exactly when its identifier stands at that place among
those outside both the words and the names. -/
theorem Scope.advance?_of_eq_some_iff (sound : a.Sound words)
    (room : (wordRaws words).length + requestLimit ≤ indexLimit) {i m : Nat}
    (small : i < requestLimit) :
    advance? (of a names).skips i = some m ↔
      m < requestLimit ∧ IsNthFree (words ++ names) i (freeRaw words m) := by
  have sorted : (of a names).skips.Pairwise (· < ·) := pairwise_increasing _
  rw [advance?_eq_some_iff sorted small]
  refine and_congr_right fun below => ?_
  have bound : freeRaw words m < indexLimit := freeRaw_lt_indexLimit room below
  have outside {k : Nat} (hk : k < requestLimit) :
      k ∉ (of a names).skips ↔ IsFree names (freeRaw words k) := by
    rw [mem_skips_of_iff sound room, and_iff_right hk, not_not]
  have places : Nat.count (· ∉ (of a names).skips) m =
      Nat.count (fun k => IsFree names (freeRaw words k)) m := by
    refine List.countP_congr fun k before => ?_
    rw [decide_eq_true_eq, decide_eq_true_eq]
    exact outside ((List.mem_range.1 before).trans below)
  rw [IsNthFree, count_isFree_append names bound, outside below, places, isFree_append,
    and_iff_right (isFree_freeRaw bound)]

theorem freeRaw_eq_iff (room : (wordRaws words).length + requestLimit ≤ indexLimit) {k m raw : Nat}
    (small : k < requestLimit) (own : IsNthFree words m raw) : freeRaw words k = raw ↔ k = m := by
  have nth := isNthFree_freeRaw (freeRaw_lt_indexLimit room small)
  constructor
  · rintro rfl
    exact nth.2.symm.trans own.2
  · rintro rfl
    exact nth.unique own

theorem Allocator.requestFor?_spell (sound : a.Sound words)
    (room : (wordRaws words).length + requestLimit ≤ indexLimit) {m raw : Nat}
    (own : IsNthFree words m raw) :
    a.requestFor? (spell raw) = if m < requestLimit then some m else none := by
  ext k
  rw [requestFor?_eq_some_iff sound room, Option.ite_none_right_eq_some, Option.some.injEq]
  constructor
  · rintro ⟨small, same⟩
    obtain rfl := (freeRaw_eq_iff room small own).1 (spell_injective same)
    exact ⟨small, rfl⟩
  · rintro ⟨small, rfl⟩
    exact ⟨small, congrArg spell ((freeRaw_eq_iff room small own).2 rfl)⟩

namespace Scope

/-- The walk ends at the requested index of the identifier outside both the words and the names, as
long as that index is below the bound. -/
theorem advance?_of_eq (sound : a.Sound words)
    (room : (wordRaws words).length + requestLimit ≤ indexLimit) {i m raw : Nat}
    (small : i < requestLimit) (nth : IsNthFree (words ++ names) i raw)
    (own : IsNthFree words m raw) :
    advance? (of a names).skips i = if m < requestLimit then some m else none := by
  ext k
  rw [advance?_of_eq_some_iff sound room small, Option.ite_none_right_eq_some, Option.some.injEq]
  constructor
  · rintro ⟨below, reached⟩
    obtain rfl := (freeRaw_eq_iff room below own).1 (reached.unique nth)
    exact ⟨below, rfl⟩
  · rintro ⟨below, rfl⟩
    rw [(freeRaw_eq_iff room below own).2 rfl]
    exact ⟨below, nth⟩

/-- The identifier at a place of a scope: the scope is made of an allocator after some uses, and the
identifier drawn from it after others. -/
def drawn (words names : List String) (uses uses' : List Use) (i : Nat) : Option String :=
  ((of ((Allocator.reserving words).afterAll uses) names).take?
    ((Allocator.reserving words).afterAll uses') i).1

theorem drawn_eq (room : (wordRaws words).length + requestLimit ≤ indexLimit)
    (uses uses' : List Use) {i m raw : Nat} (small : i < requestLimit)
    (nth : IsNthFree (words ++ names) i raw) (own : IsNthFree words m raw) :
    drawn words names uses uses' i = if m < requestLimit then some (spell raw) else none := by
  have start := Allocator.sound_reserving words
  rw [drawn, take?, advance?_of_eq (start.afterAll uses) room small nth own]
  split_ifs with below
  · have answer := (Allocator.take_spec (start.afterAll uses') m).1
    rw [(freeRaw_eq_iff room below own).2 rfl] at answer
    simp only [answer]
  · rfl

/-- A scope gives out what an allocator with its names among the reserved words gives out, whatever
either has been used for before: the `i`-th identifier outside both. There is none exactly where the
index of that identifier among those outside the words alone is out of bound. What is given out is
no word and no name, and later places have later identifiers. -/
theorem drawn_enumerates (words names : List String)
    (room : (Allocator.reserving (words ++ names)).reservedRaws.length + requestLimit ≤ indexLimit)
    {i : Nat} (small : i < requestLimit) :
    (∃ raw m, IsNthFree (words ++ names) i raw ∧ IsNthFree words m raw ∧
      (∀ uses, (((Allocator.reserving (words ++ names)).afterAll uses).take i).1 = spell raw) ∧
      ∀ uses uses',
        ((Allocator.reserving words).afterAll uses).requestFor? (spell raw) =
          (if m < requestLimit then some m else none) ∧
        drawn words names uses uses' i = if m < requestLimit then some (spell raw) else none) ∧
    (∀ uses uses' name, drawn words names uses uses' i = some name →
      name ∉ words ∧ name ∉ names) ∧
    ∀ j < i, ∀ uses uses' name name', drawn words names uses uses' j = some name →
      drawn words names uses uses' i = some name' → compareNames name name' = .lt := by
  have whole : (wordRaws (words ++ names)).length + requestLimit ≤ indexLimit := room
  have room' : (wordRaws words).length + requestLimit ≤ indexLimit := by
    have := length_wordRaws_append words names
    omega
  -- The raw index at a place, free of both, and the place that it has when only the words are out.
  have place {i : Nat} (small : i < requestLimit) :
      IsNthFree (words ++ names) i (freeRaw (words ++ names) i) :=
    isNthFree_freeRaw (freeRaw_lt_indexLimit whole small)
  have apart {i : Nat} (small : i < requestLimit) :
      IsFree words (freeRaw (words ++ names) i) ∧ IsFree names (freeRaw (words ++ names) i) :=
    isFree_append.1 (place small).1
  have answer {i : Nat} (small : i < requestLimit) (uses uses' : List Use) (name : String)
      (given : drawn words names uses uses' i = some name) :
      spell (freeRaw (words ++ names) i) = name := by
    rw [drawn_eq room' uses uses' small (place small) ⟨(apart small).1, rfl⟩,
      Option.ite_none_right_eq_some, Option.some.injEq] at given
    exact given.2
  refine ⟨?same, ?outside, ?later⟩
  case same =>
    refine ⟨_, _, place small, ⟨(apart small).1, rfl⟩, fun uses => ?_, fun uses uses' => ⟨?_, ?_⟩⟩
    · have start := Allocator.sound_reserving (words ++ names)
      exact (Allocator.take_spec (start.afterAll uses) i).1
    · have start := Allocator.sound_reserving words
      exact Allocator.requestFor?_spell (start.afterAll uses) room' ⟨(apart small).1, rfl⟩
    · exact drawn_eq room' uses uses' small (place small) ⟨(apart small).1, rfl⟩
  case outside =>
    intro uses uses' name given
    rw [← answer small uses uses' name given]
    exact apart small
  case later =>
    intro j lt uses uses' name name' earlier given
    rw [← answer (lt.trans small) uses uses' name earlier, ← answer small uses uses' name' given,
      compareNames_spell]
    exact Nat.compare_eq_lt.2 (freeRaw_lt (words ++ names) lt)

/-- A scope with a name twice, two reserved words, a text that is no identifier and one that lies
past the raw indices, next to reserved words on both sides of its names. -/
theorem drawn_enumerates_adjacent_names :
    let words := ["b", "1x", "a", "d", "b"]
    let names := ["c", "d", "e", "c", "1x", "aaaaaaaaaaaaaaaaaaaaaaaaaaaaa", "a"]
    let uses : List Use := [.index 1, .number (-1), .index 0, .search "c"]
    let uses' : List Use := [.scoped ⟨[0, 1]⟩ 0, .index 2]
    (Allocator.reserving (words ++ names)).reservedRaws.length + requestLimit ≤ indexLimit ∧
      0 < requestLimit ∧ IsNthFree (words ++ names) 0 5 ∧ IsNthFree words 2 5 ∧
      drawn words names uses uses' 0 = some "f" := by
  intro words names uses uses'
  have room : (Allocator.reserving (words ++ names)).reservedRaws.length + requestLimit ≤
      indexLimit := by
    decide +kernel
  have nth : IsNthFree (words ++ names) 0 5 := by decide +kernel
  have own : IsNthFree words 2 5 := by decide +kernel
  obtain ⟨raw, m, nth', own', -, answers⟩ := (drawn_enumerates words names room (i := 0)
    (by decide)).1
  obtain rfl := nth'.unique nth
  obtain rfl : m = 2 := own'.2.symm.trans own.2
  refine ⟨room, by decide, nth, own, ?_⟩
  rw [(answers uses uses').2]
  decide +kernel

example : drawn ["b"] ["c", "b", "a"] [] [] (requestLimit - 3) = some "r4fFHa9ZNSB" ∧
    drawn ["b"] ["c", "b", "a"] [] [] (requestLimit - 2) = none := by decide +kernel

end Scope

end EnumMacros.Identifier
