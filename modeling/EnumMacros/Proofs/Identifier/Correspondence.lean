import EnumMacros.Proofs.Identifier.Numbering
import Mathlib.Data.Nat.Digits.Defs
import Mathlib.Data.Set.Card

/-! Spelling and reading are inverse to each other on the whole space of raw indices, and the raw
index of a name is its place when names are ordered by length and then as numbers in base 63:
`spell_inverse`. No number that is met on the way leaves the 128 bits, as long as the index itself
fits into them. -/

namespace EnumMacros.Identifier

/-! ### Spelling in 128 bits -/

theorem le_longestTail {k : Nat} (h : blockStart k < indexLimit) : k ≤ longestTail := by
  by_contra longer
  have start := blockStart_mono (show longestTail + 1 ≤ k by omega)
  have limit := indexLimit_le_blockStart
  omega

theorem lt_blockSize_iff {offset k : Nat} (h : blockStart k + offset < indexLimit) :
    offset < blockSize k ↔ offset < leads * runs k := by
  rw [blockSize, Nat.lt_min]
  constructor
  · intro within
    exact within.1
  · intro within
    refine ⟨within, ?_⟩
    -- Only the largest index could be as large as the bound, and that one is not in block 0.
    cases k with
    | zero => exact within.trans (by decide)
    | succ k =>
      have start : blockStart 1 ≤ blockStart (k + 1) := blockStart_mono (by omega)
      have first : blockStart 1 = 52 := rfl
      omega

theorem blockSize_eq {offset k : Nat} (h : blockStart k + offset < indexLimit)
    (past : ¬ offset < leads * runs k) : blockSize k = leads * runs k := by
  have most : blockSize k ≤ offset := Nat.not_lt.1 (mt (lt_blockSize_iff h).1 past)
  unfold blockSize at *
  omega

theorem locate?_eq {offset k : Nat} (h : blockStart k + offset < indexLimit) :
    locate? offset k = some (locate offset k) := by
  fun_induction locate offset k with
  | case1 offset k here => rw [locate?, if_pos ((lt_blockSize_iff h).2 here)]
  | case2 offset k past ih =>
    have later : blockStart (k + 1) + (offset - leads * runs k) < indexLimit := by
      rw [blockStart]
      omega
    have weight : runs (k + 1) < indexLimit :=
      (runs_mono (le_longestTail (show blockStart (k + 1) < indexLimit by omega))).trans_lt
        runs_longestTail
    rw [locate?, if_neg (mt (lt_blockSize_iff h).1 past), if_pos weight, blockSize_eq h past]
    exact ih later

theorem alphabet_eq : alphabet = (List.range base).map symbolOf := by decide

theorem symbol?_eq {d : Nat} (h : d < base) : symbol? d = some (symbolOf d) := by
  rw [symbol?, alphabet_eq, List.getElem?_map, List.getElem?_range h, Option.map_some]

/-- A step that succeeds for every element succeeds for the list. -/
theorem mapM_eq_some_map {α β : Type} {f : α → Option β} {g : α → β} {xs : List α}
    (h : ∀ x ∈ xs, f x = some (g x)) : xs.mapM f = some (xs.map g) := by
  induction xs with
  | nil => rfl
  | cons x xs ih =>
    obtain ⟨first, rest⟩ := List.forall_mem_cons.1 h
    simp [List.mapM_cons, first, ih rest]

theorem mapM_symbol? {ds : List Nat} (h : ∀ d ∈ ds, d < base) :
    ds.mapM symbol? = some (ds.map symbolOf) :=
  mapM_eq_some_map fun d member => symbol?_eq (h d member)

theorem spell?_eq {raw : Nat} (h : raw < indexLimit) : spell? raw = some (spell raw) := by
  have located : locate? raw 0 = some (locate raw 0) :=
    locate?_eq (by rwa [blockStart, Nat.zero_add])
  have small := (locate_spec raw 0).1
  have positive : 0 < runs (locate raw 0).1 := runs_pos _
  have lead : (locate raw 0).2 / runs (locate raw 0).1 < base :=
    (Nat.div_lt_of_lt_mul (by rwa [Nat.mul_comm])).trans_le (show leads ≤ base by decide)
  have tail := mapM_symbol? fun d => digits_lt (d := d) (Nat.mod_lt (locate raw 0).2 positive)
  simp only [spell?, located, Option.bind_eq_bind, Option.bind_some, symbol?_eq lead, tail]
  rfl

/-! ### Names -/

/-- A letter, and then letters, digits, and underscores. -/
def IsName (name : String) : Prop :=
  ∃ first rest, name.toList = first :: rest ∧ first.isAlpha ∧ ∀ c ∈ rest, c.isAlphanum ∨ c = '_'

theorem toNat_lt_of_isAlphanum {c : Char} (h : c.isAlphanum = true) : c.toNat < 128 := by
  have letter : c.isAlpha = (decide ('A'.val ≤ c.val ∧ c.val ≤ 'Z'.val) ||
      decide ('a'.val ≤ c.val) && decide (c.val ≤ 'z'.val)) := rfl
  simp only [Char.isAlphanum, letter, Char.isDigit, Bool.or_eq_true, Bool.and_eq_true,
    decide_eq_true_eq, ge_iff_le, UInt32.le_iff_toNat_le] at h
  change c.val.toNat < 128
  rcases h with (h | h) | h
  · exact h.2.trans_lt (by decide)
  · exact h.2.trans_lt (by decide)
  · exact h.2.trans_lt (by decide)

theorem isAlpha_iff {c : Char} : c.isAlpha = true ↔ ∃ d < leads, symbolOf d = c := by
  have ascii : ∀ n < 128, (Char.ofNat n).isAlpha = true →
      ∃ d ∈ digit? (Char.ofNat n), d < leads := by decide
  have letters : ∀ d < leads, (symbolOf d).isAlpha = true := by decide
  constructor
  · intro h
    have small := toNat_lt_of_isAlphanum (c := c) (by rw [Char.isAlphanum, h, Bool.true_or])
    obtain ⟨d, digit, lead⟩ := ascii c.toNat small (by rwa [Char.ofNat_toNat])
    rw [Char.ofNat_toNat] at digit
    exact ⟨d, lead, (digit?_eq_some_iff.1 digit).2⟩
  · rintro ⟨d, small, rfl⟩
    exact letters d small

theorem isAlphanum_iff {c : Char} :
    c.isAlphanum = true ∨ c = '_' ↔ ∃ d < base, symbolOf d = c := by
  have ascii : ∀ n < 128, (Char.ofNat n).isAlphanum = true ∨ Char.ofNat n = '_' →
      (digit? (Char.ofNat n)).isSome := by decide
  have symbols : ∀ d < base, (symbolOf d).isAlphanum = true ∨ symbolOf d = '_' := by decide +kernel
  constructor
  · intro h
    have small : c.toNat < 128 := by
      rcases h with word | rfl
      · exact toNat_lt_of_isAlphanum word
      · decide
    have found := ascii c.toNat small
    rw [Char.ofNat_toNat, Option.isSome_iff_exists] at found
    obtain ⟨d, digit⟩ := found h
    exact ⟨d, digit?_eq_some_iff.1 digit⟩
  · rintro ⟨d, small, rfl⟩
    exact symbols d small

theorem isName_iff {name : String} :
    IsName name ↔ ∃ (lead : Nat) (tail : List Nat), lead < leads ∧ (∀ d ∈ tail, d < base) ∧
      name.toList = symbolOf lead :: tail.map symbolOf := by
  constructor
  · rintro ⟨first, rest, spelled, letter, others⟩
    obtain ⟨lead, small, rfl⟩ := isAlpha_iff.1 letter
    obtain ⟨tail, symbols, rfl⟩ : ∃ tail : List Nat, (∀ d ∈ tail, d < base) ∧
        rest = tail.map symbolOf := by
      clear spelled
      induction rest with
      | nil => exact ⟨[], by simp, rfl⟩
      | cons c rest ih =>
        rw [List.forall_mem_cons] at others
        obtain ⟨d, digit, rfl⟩ := isAlphanum_iff.1 others.1
        obtain ⟨tail, symbols, rfl⟩ := ih others.2
        exact ⟨d :: tail, List.forall_mem_cons.2 ⟨digit, symbols⟩, rfl⟩
    exact ⟨lead, tail, small, symbols, spelled⟩
  · rintro ⟨lead, tail, small, symbols, spelled⟩
    refine ⟨symbolOf lead, tail.map symbolOf, spelled, isAlpha_iff.2 ⟨lead, small, rfl⟩, ?_⟩
    intro c member
    obtain ⟨d, inTail, rfl⟩ := List.mem_map.1 member
    exact isAlphanum_iff.2 ⟨d, symbols d inTail, rfl⟩

theorem isName_spell (raw : Nat) : IsName (spell raw) := by
  obtain ⟨lead, tail, small, symbols, spelled, -⟩ := spellChars_eq raw
  exact isName_iff.2 ⟨lead, tail, small, symbols, by rw [toList_spell, spelled]⟩

theorem exists_spell_eq {name : String} (h : IsName name) : ∃ raw, spell raw = name := by
  obtain ⟨lead, tail, hlead, htail, spelled⟩ := isName_iff.1 h
  refine ⟨placeOf lead tail, ?_⟩
  rw [← String.toList_inj, toList_spell, spellChars_placeOf hlead htail, spelled]

/-! ### The order of names -/

/-- The number of shorter names. -/
noncomputable def shorterNames (name : String) : Nat :=
  {other : String | IsName other ∧ other.length < name.length}.ncard

/-- What a name says as a number in base 63. -/
def placeInBlock (name : String) : Nat :=
  Nat.ofDigits base (name.toList.map (alphabet.idxOf ·)).reverse

theorem idxOf_symbolOf {d : Nat} (h : d < base) : alphabet.idxOf (symbolOf d) = d := by
  have nodup : ((List.range base).map symbolOf).Nodup :=
    List.nodup_range.map_on fun x hx y hy => symbolOf_injective (List.mem_range.1 hx)
      (List.mem_range.1 hy)
  have place := nodup.idxOf_getElem d (by simpa using h)
  rwa [List.getElem_map, List.getElem_range, ← alphabet_eq] at place

theorem runs_eq_pow (k : Nat) : runs k = base ^ k := by
  induction k with
  | zero => rfl
  | succ k ih => rw [runs_succ, ih, Nat.pow_succ]

theorem ofDigits_reverse (ds : List Nat) : Nat.ofDigits base ds.reverse = value ds := by
  induction ds with
  | nil => rfl
  | cons d ds ih =>
    rw [List.reverse_cons, Nat.ofDigits_append, ih, List.length_reverse, Nat.ofDigits_singleton,
      value, runs_eq_pow, Nat.add_comm, Nat.mul_comm]

theorem placeInBlock_eq {name : String} {lead : Nat} {tail : List Nat} (hlead : lead < leads)
    (htail : ∀ d ∈ tail, d < base) (spelled : name.toList = symbolOf lead :: tail.map symbolOf) :
    placeInBlock name = lead * runs tail.length + value tail := by
  have wide : leads ≤ base := by decide
  have digits : name.toList.map (alphabet.idxOf ·) = lead :: tail := by
    rw [spelled, List.map_cons, List.map_map, idxOf_symbolOf (hlead.trans_le wide)]
    congr 1
    conv_rhs => rw [← List.map_id tail]
    exact List.map_congr_left fun d hd => idxOf_symbolOf (htail d hd)
  rw [placeInBlock, digits, ofDigits_reverse, value]

theorem length_spell_lt_iff {raw k : Nat} : (spell raw).length < k + 1 ↔ raw < blockStart k := by
  obtain ⟨lead, tail, hlead, htail, spelled, rfl⟩ := spellChars_eq raw
  have length : (spell (placeOf lead tail)).length = tail.length + 1 := by
    rw [← String.length_toList, toList_spell, spelled, List.length_cons, List.length_map]
  rw [length, Nat.add_lt_add_iff_right]
  constructor
  · intro shorter
    exact (placeOf_lt hlead htail).trans_le (blockStart_mono shorter)
  · intro below
    by_contra longer
    have start := blockStart_mono (Nat.not_lt.1 longer)
    rw [placeOf] at below
    omega

/-- The names that are shorter are those at the raw indices before the block. -/
theorem shorterNames_eq {name : String} {k : Nat} (length : name.length = k + 1) :
    shorterNames name = blockStart k := by
  have image : {other : String | IsName other ∧ other.length < name.length} =
      spell '' (Finset.range (blockStart k) : Set Nat) := by
    ext other
    simp only [Set.mem_ofPred_eq, Set.mem_image, Finset.coe_range, Set.mem_Iio, length]
    constructor
    · rintro ⟨isName, shorter⟩
      obtain ⟨raw, rfl⟩ := exists_spell_eq isName
      exact ⟨raw, length_spell_lt_iff.1 shorter, rfl⟩
    · rintro ⟨raw, below, rfl⟩
      exact ⟨isName_spell raw, length_spell_lt_iff.2 below⟩
  rw [shorterNames, image, Set.ncard_image_of_injective _ fun _ _ => spell_injective,
    Set.ncard_coe_finset, Finset.card_range]

theorem rawIndex?_eq {name : String} (h : IsName name) :
    rawIndex? name = inBound (shorterNames name + placeInBlock name) := by
  obtain ⟨lead, tail, hlead, htail, spelled⟩ := isName_iff.1 h
  have length : name.length = tail.length + 1 := by
    rw [← String.length_toList, spelled, List.length_cons, List.length_map]
  rw [rawIndex?, spelled, rawIndexOfChars?_symbols hlead htail, shorterNames_eq length,
    placeInBlock_eq hlead htail spelled, placeOf, Nat.add_assoc]

theorem rawIndex?_eq_none_iff {name : String} : rawIndex? name = none ↔
    ¬ IsName name ∨ indexLimit ≤ shorterNames name + placeInBlock name := by
  by_cases isName : IsName name
  · rw [rawIndex?_eq isName]
    unfold inBound
    split <;> simp [isName] <;> omega
  · simp only [isName, not_false_eq_true, true_or, iff_true]
    rw [Option.eq_none_iff_forall_ne_some]
    intro raw read
    obtain ⟨-, rfl⟩ := rawIndex?_eq_some_iff.1 read
    exact isName (isName_spell raw)

theorem mem_alphabet_iff {c : Char} : c ∈ alphabet ↔ c.isAlphanum = true ∨ c = '_' := by
  rw [isAlphanum_iff, alphabet_eq, List.mem_map]
  simp only [List.mem_range]

theorem not_isName_iff {name : String} :
    ¬ IsName name ↔ name = "" ∨ (∃ c ∈ name.toList.head?, c.isAlpha = false) ∨
      ∃ c ∈ name.toList, c ∉ alphabet := by
  rw [← not_iff_not, not_not]
  constructor
  · rintro ⟨first, rest, spelled, letter, others⟩ (rfl | ⟨c, head, other⟩ | ⟨c, member, foreign⟩)
    · exact absurd spelled (by simp)
    · rw [spelled, List.head?_cons, Option.mem_some_iff] at head
      rw [← head, letter] at other
      exact absurd other (by decide)
    · rw [spelled] at member
      refine foreign (mem_alphabet_iff.2 ?_)
      rcases List.mem_cons.1 member with rfl | member
      · exact .inl (by rw [Char.isAlphanum, letter, Bool.true_or])
      · exact others c member
  · intro sound
    rw [not_or, not_or] at sound
    obtain ⟨nonempty, head, known⟩ := sound
    cases spelled : name.toList with
    | nil => exact absurd (String.toList_eq_nil_iff.1 spelled) nonempty
    | cons first rest =>
      refine ⟨first, rest, spelled, ?_, ?_⟩
      · rw [spelled, List.head?_cons] at head
        by_contra other
        exact head ⟨first, rfl, Bool.eq_false_iff.2 other⟩
      · intro c member
        by_contra foreign
        refine known ⟨c, ?_, mt mem_alphabet_iff.1 foreign⟩
        rw [spelled]
        exact List.mem_cons_of_mem first member

/-- Every raw index in 128 bits has a name, which is found without leaving them and is read back
to the index. A name is read to its place in the order as soon as that fits, and nothing else is
read. -/
theorem spell_inverse :
    (∀ raw < indexLimit, spell? raw = some (spell raw) ∧ IsName (spell raw) ∧
      rawIndex? (spell raw) = some raw) ∧
    (∀ name raw, rawIndex? name = some raw → spell? raw = some name) ∧
    (∀ name, IsName name → shorterNames name + placeInBlock name < indexLimit →
      rawIndex? name = some (shorterNames name + placeInBlock name)) ∧
    ∀ name, rawIndex? name = none ↔
      name = "" ∨ (∃ c ∈ name.toList.head?, c.isAlpha = false) ∨
      (∃ c ∈ name.toList, c ∉ alphabet) ∨
      indexLimit ≤ shorterNames name + placeInBlock name := by
  refine ⟨?spelled, ?read, ?fits, ?rejected⟩
  case spelled =>
    intro raw small
    exact ⟨spell?_eq small, isName_spell raw, rawIndex?_eq_some_iff.2 ⟨small, rfl⟩⟩
  case read =>
    intro name raw read
    obtain ⟨small, rfl⟩ := rawIndex?_eq_some_iff.1 read
    exact spell?_eq small
  case fits =>
    intro name isName small
    rw [rawIndex?_eq isName, inBound_of_lt small]
  case rejected =>
    intro name
    rw [rawIndex?_eq_none_iff, not_isName_iff, or_assoc, or_assoc]

example : spell? (indexLimit - 1) = some "eT69JWa4hKdvvocgnFZGFo" := by decide +kernel

end EnumMacros.Identifier
