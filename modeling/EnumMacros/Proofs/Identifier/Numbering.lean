import EnumMacros.Identifier.Spelling
import Mathlib.Data.Nat.Basic
import Mathlib.Tactic.Ring
import Mathlib.Tactic.NormNum

/-! Raw indices and identifiers determine each other. An identifier is written with the digits of an
offset in the block of its length, and reading it gives the raw index back, as long as that lies
below the limit: `rawIndex?_eq_some_iff`. -/

namespace EnumMacros.Identifier

/-! ### Symbols -/

/-- Every symbol is an ASCII character that stands for its place in the alphabet. -/
theorem symbolOf_of_ascii :
    ∀ n < 128, ∀ d ∈ digit? (Char.ofNat n), d < base ∧ symbolOf d = Char.ofNat n := by
  decide +kernel

theorem toNat_lt_of_digit? {c : Char} {d : Nat} (h : digit? c = some d) : c.toNat < 128 := by
  unfold digit? at h
  split_ifs at h with small capital underscore digit zero
  · exact lt_of_le_of_lt (show c.toNat ≤ 'z'.toNat from small.2) (by decide)
  · exact lt_of_le_of_lt (show c.toNat ≤ 'Z'.toNat from capital.2) (by decide)
  · subst underscore; decide
  · exact lt_of_le_of_lt (show c.toNat ≤ '9'.toNat from digit.2) (by decide)
  · subst zero; decide

theorem digit?_eq_some_iff {c : Char} {d : Nat} :
    digit? c = some d ↔ d < base ∧ symbolOf d = c := by
  constructor
  · intro h
    have found := symbolOf_of_ascii c.toNat (toNat_lt_of_digit? h) d
      (by rw [Char.ofNat_toNat]; exact h)
    rwa [Char.ofNat_toNat] at found
  · rintro ⟨small, rfl⟩
    exact digit?_symbolOf d small

theorem symbolOf_injective {d e : Nat} (hd : d < base) (he : e < base)
    (h : symbolOf d = symbolOf e) : d = e := by
  have same := digit?_symbolOf d hd
  rw [h, digit?_symbolOf e he] at same
  exact (Option.some.inj same).symm

theorem map_symbolOf_injective {ds es : List Nat} (hd : ∀ d ∈ ds, d < base)
    (he : ∀ e ∈ es, e < base) (h : ds.map symbolOf = es.map symbolOf) : ds = es := by
  induction ds generalizing es with
  | nil => exact (List.map_eq_nil_iff.1 h.symm).symm
  | cons d ds ih =>
    obtain ⟨e, rest, rfl, first, others⟩ := List.map_eq_cons_iff.1 h.symm
    rw [List.forall_mem_cons] at hd he
    rw [symbolOf_injective hd.1 he.1 first.symm, ih hd.2 he.2 others.symm]

theorem isWordChar_symbolOf {d : Nat} (hd : d < base) : isWordChar (symbolOf d) = true := by
  simp [isWordChar, digit?_symbolOf d hd]

/-! ### Digits -/

theorem runs_succ (k : Nat) : runs (k + 1) = runs k * base := Nat.mul_comm _ _

theorem runs_mono {j k : Nat} (h : j ≤ k) : runs j ≤ runs k := by
  induction h with
  | refl => exact le_refl _
  | step _ ih => exact ih.trans (Nat.le_mul_of_pos_left _ (by decide))

/-- The value of digits in base 63, the most significant first. -/
def value : List Nat → Nat
  | [] => 0
  | d :: ds => d * runs ds.length + value ds

theorem value_lt {ds : List Nat} (h : ∀ d ∈ ds, d < base) : value ds < runs ds.length := by
  induction ds with
  | nil => exact runs_pos 0
  | cons d ds ih =>
    have rest := ih fun e he => h e (List.mem_cons_of_mem d he)
    have lead : (d + 1) * runs ds.length ≤ base * runs ds.length :=
      Nat.mul_le_mul_right _ (h d List.mem_cons_self)
    rw [value, List.length_cons, runs_succ, Nat.mul_comm (runs ds.length)]
    rw [Nat.add_mul, Nat.one_mul] at lead
    omega

theorem value_digits {k v : Nat} (h : v < runs k) : value (digits k v) = v := by
  induction k generalizing v with
  | zero => simp only [runs, Nat.lt_one_iff] at h; subst h; rfl
  | succ k ih =>
    have positive : 0 < runs k := runs_pos _
    rw [digits, value, length_digits, ih (Nat.mod_lt v positive), Nat.mul_comm]
    exact Nat.div_add_mod v (runs k)

theorem digits_value {ds : List Nat} (h : ∀ d ∈ ds, d < base) :
    digits ds.length (value ds) = ds := by
  induction ds with
  | nil => rfl
  | cons d ds ih =>
    have rest : ∀ e ∈ ds, e < base := fun e he => h e (List.mem_cons_of_mem d he)
    have positive : 0 < runs ds.length := runs_pos _
    have small := value_lt rest
    rw [List.length_cons, digits, value, Nat.mul_comm, Nat.mul_add_div positive,
      Nat.div_eq_of_lt small, Nat.mul_add_mod, Nat.mod_eq_of_lt small, ih rest, Nat.add_zero]

theorem digits_lt {k v d : Nat} (h : v < runs k) (hd : d ∈ digits k v) : d < base := by
  induction k generalizing v with
  | zero => simp [digits] at hd
  | succ k ih =>
    have positive : 0 < runs k := runs_pos _
    rcases List.mem_cons.1 hd with rfl | hd
    · exact Nat.div_lt_of_lt_mul (by rwa [← runs_succ])
    · exact ih (Nat.mod_lt v positive) hd

/-! ### Blocks -/

/-- The raw index at which the identifiers with `k` symbols after the first begin: there are so many
shorter ones. -/
def blockStart : Nat → Nat
  | 0 => 0
  | k + 1 => blockStart k + leads * runs k

theorem blockStart_mono {j k : Nat} (h : j ≤ k) : blockStart j ≤ blockStart k := by
  induction h with
  | refl => exact le_refl _
  | step _ ih => exact ih.trans (Nat.le_add_right _ _)

/-- The index that an identifier has among all: its block, its first symbol, and the rest. -/
def placeOf (lead : Nat) (tail : List Nat) : Nat :=
  blockStart tail.length + lead * runs tail.length + value tail

theorem locate_spec (offset k : Nat) :
    (locate offset k).2 < leads * runs (locate offset k).1 ∧
      blockStart (locate offset k).1 + (locate offset k).2 = blockStart k + offset := by
  fun_induction locate offset k with
  | case1 offset k here => exact ⟨here, rfl⟩
  | case2 offset k past ih =>
    refine ⟨ih.1, ih.2.trans ?_⟩
    rw [blockStart]
    omega

/-- Every raw index is the place of the digits with which its identifier is spelled. -/
theorem spellChars_eq (raw : Nat) :
    ∃ lead tail, lead < leads ∧ (∀ d ∈ tail, d < base) ∧
      spellChars raw = symbolOf lead :: tail.map symbolOf ∧ placeOf lead tail = raw := by
  obtain ⟨small, start⟩ := locate_spec raw 0
  generalize located : locate raw 0 = place at small start
  obtain ⟨k, offset⟩ := place
  have positive : 0 < runs k := runs_pos _
  have rest : offset % runs k < runs k := Nat.mod_lt offset positive
  refine ⟨offset / runs k, digits k (offset % runs k), ?_, fun d hd => digits_lt rest hd, ?_, ?_⟩
  · exact Nat.div_lt_of_lt_mul (by rwa [Nat.mul_comm])
  · simp only [spellChars, located]
  · have whole := Nat.div_add_mod offset (runs k)
    simp only [placeOf, length_digits, value_digits rest]
    simp only [blockStart] at start
    rw [Nat.mul_comm (offset / runs k)]
    omega

/-- Places in different blocks are told apart by the blocks. -/
theorem placeOf_lt {lead : Nat} {tail : List Nat} (hlead : lead < leads)
    (htail : ∀ d ∈ tail, d < base) : placeOf lead tail < blockStart (tail.length + 1) := by
  have small := value_lt htail
  have room : (lead + 1) * runs tail.length ≤ leads * runs tail.length :=
    Nat.mul_le_mul_right _ hlead
  rw [Nat.add_mul, Nat.one_mul] at room
  rw [placeOf, blockStart]
  omega

theorem length_eq_of_placeOf_eq {lead lead' : Nat} {tail tail' : List Nat} (hlead : lead < leads)
    (hlead' : lead' < leads) (htail : ∀ d ∈ tail, d < base) (htail' : ∀ d ∈ tail', d < base)
    (h : placeOf lead tail = placeOf lead' tail') : tail.length = tail'.length := by
  have above : ∀ {x y : Nat} {xs ys : List Nat}, x < leads → (∀ d ∈ xs, d < base) →
      placeOf x xs = placeOf y ys → ys.length ≤ xs.length := by
    intro x y xs ys hx hxs same
    by_contra longer
    have below := placeOf_lt hx hxs
    have start := blockStart_mono (show xs.length + 1 ≤ ys.length by omega)
    rw [same, placeOf] at below
    omega
  exact le_antisymm (above hlead' htail' h.symm) (above hlead htail h)

theorem placeOf_injective {lead lead' : Nat} {tail tail' : List Nat} (hlead : lead < leads)
    (hlead' : lead' < leads) (htail : ∀ d ∈ tail, d < base) (htail' : ∀ d ∈ tail', d < base)
    (h : placeOf lead tail = placeOf lead' tail') : lead = lead' ∧ tail = tail' := by
  have same := length_eq_of_placeOf_eq hlead hlead' htail htail' h
  have equal : value (lead :: tail) = value (lead' :: tail') := by
    simp only [placeOf, same] at h
    simp only [value, same]
    omega
  have digitsOf : lead :: tail = lead' :: tail' := by
    have wide : leads ≤ base := by decide
    have first := digits_value (List.forall_mem_cons.2 ⟨hlead.trans_le wide, htail⟩)
    have second := digits_value (List.forall_mem_cons.2 ⟨hlead'.trans_le wide, htail'⟩)
    rw [← first, ← second, equal, List.length_cons, List.length_cons, same]
  exact List.cons.inj digitsOf

/-- The identifier at a place is spelled with the digits of the place. -/
theorem spellChars_placeOf {lead : Nat} {tail : List Nat} (hlead : lead < leads)
    (htail : ∀ d ∈ tail, d < base) :
    spellChars (placeOf lead tail) = symbolOf lead :: tail.map symbolOf := by
  obtain ⟨lead', tail', hlead', htail', spelled, same⟩ := spellChars_eq (placeOf lead tail)
  obtain ⟨rfl, rfl⟩ := placeOf_injective hlead' hlead htail' htail same
  exact spelled

/-- Different raw indices have different identifiers. -/
theorem spell_injective {i j : Nat} (h : spell i = spell j) : i = j := by
  have chars : spellChars i = spellChars j := by rw [← toList_spell, h, toList_spell]
  obtain ⟨x, xs, hx, hxs, spelled, rfl⟩ := spellChars_eq i
  obtain ⟨y, ys, hy, hys, spelled', rfl⟩ := spellChars_eq j
  have wide : leads ≤ base := by decide
  rw [spelled, spelled', List.cons.injEq] at chars
  rw [symbolOf_injective (hx.trans_le wide) (hy.trans_le wide) chars.1,
    map_symbolOf_injective hxs hys chars.2]

/-! ### Reading -/

theorem inBound_of_lt {n : Nat} (h : n < indexLimit) : inBound n = some n := if_pos h

theorem inBound_of_le {n : Nat} (h : indexLimit ≤ n) : inBound n = none := if_neg (Nat.not_lt.2 h)

/-- The longest tail of an identifier whose raw index can lie below the limit. -/
def longestTail : Nat := 21

theorem blockStart_longestTail : blockStart longestTail < indexLimit := by decide

theorem indexLimit_le_blockStart : indexLimit ≤ blockStart (longestTail + 1) := by decide

theorem runs_longestTail : runs longestTail < indexLimit := by decide

/-- What has been read after `k` digits with the given value. -/
def Reading.after (k v : Nat) : Reading := ⟨blockStart k, runs k, v⟩

/-- Reading one more symbol fails only past the longest tail: until then every number that is met on
the way lies below the limit. -/
theorem next_after {k v d : Nat} (hk : k ≤ longestTail) (hv : v < runs k) (hd : d < base) :
    (Reading.after k v).next (symbolOf d) =
      if k < longestTail then some (.after (k + 1) (v * base + d)) else none := by
  have block : leads * runs k ≤ blockStart (k + 1) := Nat.le_add_left _ _
  unfold Reading.next
  rw [digit?_symbolOf d hd, Option.bind_eq_bind, Option.bind_some]
  by_cases room : k < longestTail
  · have start : blockStart (k + 1) < indexLimit :=
      (blockStart_mono room).trans_lt blockStart_longestTail
    have power : runs (k + 1) < indexLimit :=
      (runs_mono room).trans_lt runs_longestTail
    have shifted : v * base + d < runs (k + 1) := by
      have := Nat.mul_le_mul_right base hv
      rw [Nat.succ_mul] at this
      rw [runs_succ]
      omega
    rw [if_pos room]
    simp only [Reading.after, inBound_of_lt (block.trans_lt start), Option.bind_some,
      inBound_of_lt (show blockStart k + leads * runs k < indexLimit from start),
      inBound_of_lt (show runs k * base < indexLimit by rwa [← runs_succ]),
      inBound_of_lt (show v * base < indexLimit by omega), inBound_of_lt (shifted.trans power),
      runs_succ]
    rfl
  · obtain rfl : k = longestTail := by omega
    have full : indexLimit ≤ blockStart longestTail + leads * runs longestTail :=
      indexLimit_le_blockStart
    rw [if_neg room]
    simp only [Reading.after]
    cases found : inBound (leads * runs longestTail) with
    | none => rfl
    | some block =>
      obtain ⟨-, rfl⟩ := inBound_eq_some_iff.1 found
      rw [Option.bind_some, inBound_of_le full]
      rfl

theorem foldlM_next {k v : Nat} {tail : List Nat} (htail : ∀ d ∈ tail, d < base)
    (hk : k ≤ longestTail) (hv : v < runs k) :
    (tail.map symbolOf).foldlM Reading.next (Reading.after k v) =
      if k + tail.length ≤ longestTail then
        some (.after (k + tail.length) (v * runs tail.length + value tail))
      else none := by
  induction tail generalizing k v with
  | nil => simp [hk, value, runs]
  | cons d tail ih =>
    rw [List.forall_mem_cons] at htail
    rw [List.map_cons, List.foldlM_cons, next_after hk hv htail.1]
    by_cases room : k < longestTail
    · have shifted : v * base + d < runs (k + 1) := by
        have := Nat.mul_le_mul_right base hv
        rw [Nat.succ_mul] at this
        have := htail.1
        rw [runs_succ]
        omega
      rw [if_pos room, Option.bind_eq_bind, Option.bind_some, ih htail.2 room shifted]
      have length : k + (d :: tail).length = k + 1 + tail.length := by
        rw [List.length_cons]; omega
      have total : v * runs (d :: tail).length + value (d :: tail) =
          (v * base + d) * runs tail.length + value tail := by
        rw [List.length_cons, value, runs_succ]; ring
      rw [length, total]
    · rw [if_neg room, if_neg (by rw [List.length_cons]; omega)]
      rfl

/-- Only symbols are read. -/
theorem symbols_of_foldlM {cs : List Char} {r s : Reading}
    (h : cs.foldlM Reading.next r = some s) :
    ∃ tail : List Nat, (∀ d ∈ tail, d < base) ∧ cs = tail.map symbolOf := by
  induction cs generalizing r with
  | nil => exact ⟨[], by simp, rfl⟩
  | cons c cs ih =>
    rw [List.foldlM_cons, Option.bind_eq_bind, Option.bind_eq_some_iff] at h
    obtain ⟨t, first, others⟩ := h
    obtain ⟨tail, htail, rfl⟩ := ih others
    rw [Reading.next, Option.bind_eq_bind, Option.bind_eq_some_iff] at first
    obtain ⟨d, symbol, -⟩ := first
    obtain ⟨hd, rfl⟩ := digit?_eq_some_iff.1 symbol
    exact ⟨d :: tail, List.forall_mem_cons.2 ⟨hd, htail⟩, rfl⟩

/-- An identifier is read to its place, unless that lies past the limit. -/
theorem rawIndexOfChars?_symbols {lead : Nat} {tail : List Nat} (hlead : lead < leads)
    (htail : ∀ d ∈ tail, d < base) :
    rawIndexOfChars? (symbolOf lead :: tail.map symbolOf) = inBound (placeOf lead tail) := by
  have wide : leads ≤ base := by decide
  have begun : Reading.start = Reading.after 0 0 := rfl
  have read := foldlM_next (k := 0) (v := 0) htail (Nat.zero_le _) (by decide)
  rw [Nat.zero_add, Nat.zero_mul, Nat.zero_add] at read
  simp only [rawIndexOfChars?, digit?_symbolOf lead (hlead.trans_le wide), Option.bind_eq_bind,
    Option.bind_some, if_pos hlead, begun, read]
  by_cases room : tail.length ≤ longestTail
  · rw [if_pos room, Option.bind_some]
    simp only [Reading.after]
    by_cases small : placeOf lead tail < indexLimit
    · rw [inBound_of_lt small]
      simp only [placeOf] at small
      rw [inBound_of_lt (by omega), Option.bind_some, inBound_of_lt (by omega), Option.bind_some,
        inBound_of_lt (by omega)]
      rfl
    · rw [inBound_of_le (Nat.not_lt.1 small)]
      simp only [placeOf, Nat.not_lt] at small
      unfold inBound
      split
      · rw [Option.bind_some]
        split
        · rw [Option.bind_some, if_neg (by omega)]
        · rfl
      · rfl
  · rw [if_neg room, Option.bind_none, inBound_of_le]
    have start := blockStart_mono (show longestTail + 1 ≤ tail.length by omega)
    exact indexLimit_le_blockStart.trans (start.trans (by rw [placeOf]; omega))

/-- The raw index of a name is the one below the limit whose identifier it is. -/
theorem rawIndex?_eq_some_iff {name : String} {raw : Nat} :
    rawIndex? name = some raw ↔ raw < indexLimit ∧ spell raw = name := by
  have wide : leads ≤ base := by decide
  rw [rawIndex?]
  constructor
  · intro h
    match chars : name.toList with
    | [] => rw [chars] at h; exact absurd h (by simp [rawIndexOfChars?])
    | c :: cs =>
      rw [chars] at h
      have shape := h
      simp only [rawIndexOfChars?, Option.bind_eq_bind, Option.bind_eq_some_iff] at shape
      obtain ⟨lead, symbol, shape⟩ := shape
      obtain ⟨-, rfl⟩ := digit?_eq_some_iff.1 symbol
      split at shape
      · next hlead =>
        obtain ⟨r, read, -⟩ := Option.bind_eq_some_iff.1 shape
        obtain ⟨tail, htail, rfl⟩ := symbols_of_foldlM read
        rw [rawIndexOfChars?_symbols hlead htail, inBound_eq_some_iff] at h
        obtain ⟨small, rfl⟩ := h
        refine ⟨small, String.toList_inj.1 ?_⟩
        rw [toList_spell, spellChars_placeOf hlead htail, chars]
      · exact absurd shape (by simp)
  · rintro ⟨small, rfl⟩
    obtain ⟨lead, tail, hlead, htail, spelled, rfl⟩ := spellChars_eq raw
    rw [toList_spell, spelled, rawIndexOfChars?_symbols hlead htail, inBound_of_lt small]

end EnumMacros.Identifier
