import EnumMacros.Proofs.Identifier.Enumeration
import Mathlib.Data.List.Nodup

/-! Identifiers outside a scope. They differ from place to place, none of them is a name that the
scope leaves out, and drawing them keeps an allocator sound. -/

namespace EnumMacros.Identifier

/-- A text of word characters, and not empty. -/
def IsWord (text : String) : Prop :=
  text.toList ≠ [] ∧ ∀ c ∈ text.toList, isWordChar c = true

theorem isWord_spell (raw : Nat) : IsWord (spell raw) := by
  obtain ⟨lead, tail, small, digits, spelled, -⟩ := spellChars_eq raw
  have wide : leads ≤ base := by decide
  rw [IsWord, toList_spell, spelled]
  refine ⟨List.cons_ne_nil _ _, List.forall_mem_cons.2 ⟨?_, fun c member => ?_⟩⟩
  · exact isWordChar_symbolOf (small.trans_le wide)
  · obtain ⟨d, inside, rfl⟩ := List.mem_map.1 member
    exact isWordChar_symbolOf (digits d inside)

theorem utf8ByteSize_ofList {cs : List Char} (word : ∀ c ∈ cs, isWordChar c = true) :
    (String.ofList cs).utf8ByteSize = cs.length := by
  induction cs with
  | nil => rfl
  | cons c cs ih =>
    obtain ⟨first, rest⟩ := List.forall_mem_cons.1 word
    obtain ⟨d, digit⟩ := Option.isSome_iff_exists.1 first
    have ascii : c.utf8Size = 1 :=
      Char.utf8Size_eq_one_iff.2 (Nat.le_of_lt_succ (toNat_lt_of_digit? digit))
    rw [String.ofList_cons, String.utf8ByteSize_append, String.utf8ByteSize_singleton, ascii,
      ih rest, List.length_cons, Nat.add_comm]

theorem IsWord.utf8ByteSize {text : String} (h : IsWord text) :
    text.utf8ByteSize = text.toList.length := by
  rw [← utf8ByteSize_ofList h.2, String.ofList_toList]

/-- An identifier starts with a letter, so no text that starts with an underscore is one. -/
theorem spell_ne_of_underscore {text : String} (h : text.toList.head? = some '_') (raw : Nat) :
    spell raw ≠ text := by
  rintro rfl
  obtain ⟨lead, tail, small, -, spelled, -⟩ := spellChars_eq raw
  rw [toList_spell, spelled, List.head?_cons, Option.some.injEq] at h
  have wide : leads ≤ base := by decide
  have digit := digit?_symbolOf lead (small.trans_le wide)
  rw [h] at digit
  exact absurd (Option.some.inj digit).symm (Nat.ne_of_lt small)

/-! ### Stepping over the indices to skip -/

namespace Scope

theorem advance?_spec {skips : List Nat} (sorted : skips.Pairwise (· < ·)) {i m : Nat}
    (h : advance? skips i = some m) : i ≤ m ∧ m ∉ skips := by
  induction skips generalizing i with
  | nil => exact ⟨(Option.some.inj h).le, List.not_mem_nil⟩
  | cons skip skips ih =>
    obtain ⟨least, rest⟩ := List.pairwise_cons.1 sorted
    rw [advance?] at h
    split_ifs at h with before room
    · obtain rfl := Option.some.inj h
      refine ⟨le_refl i, fun member => ?_⟩
      rcases List.mem_cons.1 member with rfl | member
      · exact lt_irrefl _ before
      · exact absurd (least i member) before.not_gt
    · obtain ⟨above, outside⟩ := ih rest h
      refine ⟨Nat.le_of_succ_le above, fun member => ?_⟩
      rcases List.mem_cons.1 member with rfl | member
      · omega
      · exact outside member

/-- Nothing is stepped over where all the indices to skip come later. -/
theorem advance?_of_forall_lt {skips : List Nat} {i : Nat} (later : ∀ skip ∈ skips, i < skip) :
    advance? skips i = some i := by
  cases skips with
  | nil => rfl
  | cons skip skips => exact if_pos (later skip List.mem_cons_self)

/-- Each index to skip moves the one reached on by at most one. -/
theorem exists_advance? {skips : List Nat} {i : Nat} (room : i + skips.length < requestLimit) :
    ∃ m, advance? skips i = some m ∧ m < requestLimit := by
  induction skips generalizing i with
  | nil => exact ⟨i, rfl, room⟩
  | cons skip skips ih =>
    rw [List.length_cons] at room
    rw [advance?]
    split_ifs with before next
    · exact ⟨i, rfl, by omega⟩
    · exact ih (by omega)
    · omega

theorem advance?_le {skips : List Nat} {i m : Nat} (h : advance? skips i = some m) :
    m ≤ i + skips.length := by
  induction skips generalizing i with
  | nil => exact (Option.some.inj h).ge
  | cons skip skips ih =>
    rw [advance?] at h
    rw [List.length_cons]
    split_ifs at h with before room
    · have := Option.some.inj h
      omega
    · have := ih h
      omega

theorem advance?_strictMono {skips : List Nat} (sorted : skips.Pairwise (· < ·)) {i j m m' : Nat}
    (lt : i < j) (h : advance? skips i = some m) (h' : advance? skips j = some m') : m < m' := by
  induction skips generalizing i j with
  | nil => rwa [← Option.some.inj h, ← Option.some.inj h']
  | cons skip skips ih =>
    have later := (advance?_spec sorted h').1
    rw [advance?] at h h'
    split_ifs at h with before room
    · obtain rfl := Option.some.inj h
      exact lt.trans_le later
    · rw [if_neg (by omega)] at h'
      split_ifs at h' with room'
      exact ih (List.pairwise_cons.1 sorted).2 (Nat.succ_lt_succ lt) h h'

/-! ### The identifiers of a scope -/

/-- The `i`-th identifier outside a scope for an allocator with some reserved words. -/
def nameAt (words : List String) (s : Scope) (i : Nat) : String :=
  spell (freeRaw words ((advance? s.skips i).getD i))

/-- The scope keeps its indices in order and has an identifier at each of the first `count`
places. -/
structure Serves (s : Scope) (count : Nat) : Prop where
  sorted : s.skips.Pairwise (· < ·)
  room : count + s.skips.length ≤ requestLimit

variable {words : List String} {s : Scope} {count : Nat}

theorem Serves.exists_advance? (h : s.Serves count) {i : Nat} (small : i < count) :
    ∃ m, advance? s.skips i = some m ∧ m < requestLimit := by
  have := h.room
  exact Scope.exists_advance? (by omega)

theorem nameAt_injective (h : s.Serves count) {i j : Nat} (hi : i < count) (hj : j < count)
    (same : nameAt words s i = nameAt words s j) : i = j := by
  obtain ⟨m, reached, -⟩ := h.exists_advance? hi
  obtain ⟨m', reached', -⟩ := h.exists_advance? hj
  rw [nameAt, nameAt, reached, reached', Option.getD_some, Option.getD_some] at same
  obtain rfl := freeRaw_injective words (spell_injective same)
  rcases Nat.lt_trichotomy i j with lt | eq | gt
  · exact absurd (advance?_strictMono h.sorted lt reached reached') (lt_irrefl _)
  · exact eq
  · exact absurd (advance?_strictMono h.sorted gt reached' reached) (lt_irrefl _)

/-- Later places have later identifiers. -/
theorem compareNames_nameAt (h : s.Serves count) {i j : Nat} (lt : i < j) (small : j < count) :
    compareNames (nameAt words s i) (nameAt words s j) = .lt := by
  obtain ⟨m, reached, -⟩ := h.exists_advance? (lt.trans small)
  obtain ⟨m', reached', -⟩ := h.exists_advance? small
  rw [nameAt, nameAt, reached, reached', Option.getD_some, Option.getD_some, compareNames_spell]
  exact Nat.compare_eq_lt.2 (freeRaw_lt words (advance?_strictMono h.sorted lt reached reached'))

theorem nameAt_not_mem_words (h : s.Serves count)
    (room : (wordRaws words).length + requestLimit ≤ indexLimit) {i : Nat} (small : i < count) :
    nameAt words s i ∉ words := by
  obtain ⟨m, reached, bound⟩ := h.exists_advance? small
  rw [nameAt, reached, Option.getD_some]
  exact isFree_freeRaw (freeRaw_lt_indexLimit room bound)

theorem nodup_map_nameAt (h : s.Serves count) {is : List Nat} (nodup : is.Nodup)
    (small : ∀ i ∈ is, i < count) : (is.map (nameAt words s)).Nodup :=
  List.Nodup.map_on (fun i hi j hj same => nameAt_injective h (small i hi) (small j hj) same) nodup

theorem sound_take? {a : Allocator} (sound : a.Sound words) (s : Scope) (i : Nat) :
    (s.take? a i).2.Sound words :=
  sound.after (.scoped s i)

theorem sound_takeEach? {a : Allocator} (sound : a.Sound words) (s : Scope) (is : List Nat)
    (found : List String) : (s.takeEach? a found is).2.Sound words := by
  induction is generalizing a found with
  | nil => exact sound
  | cons i is ih =>
    have kept := sound_take? sound s i
    rw [takeEach?]
    split
    · next after taken => rwa [taken] at kept
    · next name after taken =>
      rw [taken] at kept
      exact ih kept (name :: found)

/-- A place of a scope is answered as if nothing had been drawn before. -/
theorem take?_eq {a : Allocator} (sound : a.Sound words) (h : s.Serves count) {i : Nat}
    (small : i < count) : (s.take? a i).1 = some (nameAt words s i) := by
  obtain ⟨m, reached, -⟩ := h.exists_advance? small
  rw [take?, reached, nameAt, reached, Option.getD_some, ← (Allocator.take_spec sound m).1]

theorem takeEach?_eq {a : Allocator} (sound : a.Sound words) (h : s.Serves count)
    {is : List Nat} (small : ∀ i ∈ is, i < count) (found : List String) :
    (s.takeEach? a found is).1 = some (found.reverse ++ is.map (nameAt words s)) := by
  induction is generalizing a found with
  | nil => simp [takeEach?]
  | cons i is ih =>
    obtain ⟨first, rest⟩ := List.forall_mem_cons.1 small
    have answer := take?_eq sound h first
    have kept := sound_take? sound s i
    rw [takeEach?]
    split
    · next after taken => exact absurd answer (by simp [taken])
    · next name after taken =>
      rw [taken] at answer kept
      obtain rfl := Option.some.inj answer
      rw [ih kept rest]
      simp

/-! ### Scopes that leave out names -/

theorem length_skips_of_le (a : Allocator) (names : List String) :
    (of a names).skips.length ≤ names.length :=
  (length_increasing_le _).trans (List.length_filterMap_le _ _)

theorem serves_of (a : Allocator) (names : List String)
    (room : count + names.length ≤ requestLimit) : (of a names).Serves count :=
  ⟨pairwise_increasing _,
    (Nat.add_le_add_left (length_skips_of_le a names) count).trans room⟩

end Scope

/-- The requested index of a name is the one below the bound at which it is the answer. -/
theorem Allocator.requestFor?_eq_some_iff {words : List String} {a : Allocator}
    (sound : a.Sound words) (room : (wordRaws words).length + requestLimit ≤ indexLimit)
    {name : String} {i : Nat} :
    a.requestFor? name = some i ↔ i < requestLimit ∧ spell (freeRaw words i) = name := by
  constructor
  · intro found
    simp only [requestFor?, sound.reservedRaws, Option.bind_eq_bind, Option.ite_none_left_eq_some,
      Option.bind_eq_some_iff, Option.ite_none_right_eq_some, Option.some.injEq, reserves,
      sound.reserved] at found
    obtain ⟨unreserved, raw, read, small, rfl⟩ := found
    obtain ⟨bound, rfl⟩ := rawIndex?_eq_some_iff.1 read
    have free : IsFree words raw := by simpa [IsFree] using unreserved
    have whole := countP_isFree_add words bound.le
    have nth : IsNthFree words (raw - (wordRaws words).countP (· < raw)) raw := ⟨free, by omega⟩
    refine ⟨small, ?_⟩
    rw [(isNthFree_freeRaw (freeRaw_lt_indexLimit room small)).unique nth]
  · rintro ⟨small, rfl⟩
    have bound : freeRaw words i < indexLimit := freeRaw_lt_indexLimit room small
    have unreserved : a.reserves (spell (freeRaw words i)) = false := by
      rw [reserves, sound.reserved]
      simpa using show spell (freeRaw words i) ∉ words from isFree_freeRaw bound
    have back : freeRaw words i - skipped words i = i := Nat.add_sub_cancel i _
    rw [requestFor?, unreserved, rawIndex?_eq_some_iff.2 ⟨bound, rfl⟩]
    simp [sound.reservedRaws, countP_lt_freeRaw, back, small]

namespace Scope

/-- What a scope leaves out does not depend on what has been drawn before. -/
theorem of_eq_of_sound {words : List String} {a b : Allocator} (ha : a.Sound words)
    (hb : b.Sound words) (names : List String) : of a names = of b names := by
  have same : a.requestFor? = b.requestFor? := by
    funext name
    simp only [Allocator.requestFor?, Allocator.reserves, ha.reserved, hb.reserved,
      ha.reservedRaws, hb.reservedRaws]
  rw [of, of, same]

/-- No identifier outside a scope is one of the names left out. -/
theorem nameAt_not_mem {words : List String} {a : Allocator} (sound : a.Sound words)
    (reachable : words.length + requestLimit ≤ indexLimit) {names : List String} {count i : Nat}
    (room : count + names.length ≤ requestLimit) (small : i < count) :
    nameAt words (of a names) i ∉ names := by
  intro member
  have serves := serves_of a names room
  obtain ⟨m, reached, bound⟩ := serves.exists_advance? small
  apply (advance?_spec serves.sorted reached).2
  rw [of, mem_increasing, List.mem_filterMap]
  refine ⟨_, member, ?_⟩
  rw [nameAt, reached]
  have few := length_wordRaws_le words
  exact (Allocator.requestFor?_eq_some_iff sound (by omega)).2 ⟨bound, rfl⟩

end Scope

end EnumMacros.Identifier
