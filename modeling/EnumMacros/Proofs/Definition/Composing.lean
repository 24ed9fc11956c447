import EnumMacros.Definition.Composer
import EnumMacros.Proofs.Style.Naming
import EnumMacros.Size.Span

/-! What a composer writes after any requests. The requests before leave no trace but the form in
which a check is written: parameters are distinct identifiers, none of which is a macro called in
the body, and a check either compares every pair of them or calls smaller checks on its parts. No
request for a size within bounds is refused. -/

namespace EnumMacros

open Identifier (IsWord Scope)

/-- The words that parameters must not be. -/
def Style.reserved (s : Style) : List String :=
  if s.avoidKeywords then Identifier.keywords else []

/-- The raw indices suffice to answer every request beside the reserved words. -/
theorem Style.room_reserved (s : Style) :
    s.reserved.length + Identifier.requestLimit ≤ Identifier.indexLimit := by
  rw [Style.reserved]
  cases s.avoidKeywords <;> decide

theorem Style.room_wordRaws (s : Style) :
    (Identifier.wordRaws s.reserved).length + Identifier.requestLimit ≤ Identifier.indexLimit :=
  (Nat.add_le_add_right (Identifier.length_wordRaws_le s.reserved) _).trans s.room_reserved

namespace Registry

/-- A registry that holds nothing but right names. -/
def Sound (style : Style) (r : Registry) : Prop :=
  ∀ family n name, r.find? family n = some name → name = style.macroName family n

variable {style : Style} {r : Registry}

theorem sound_blank (style : Style) : Sound style blank := by
  intro family n name found
  simp at found

theorem Sound.take_eq (h : r.Sound style) (family : Family) (n : Nat) :
    (r.take style family n).1 = style.macroName family n := by
  rw [Registry.take]
  split
  · next name found => exact h family n name found
  · rfl

theorem Sound.take (h : r.Sound style) (family : Family) (n : Nat) :
    (r.take style family n).2.Sound style := by
  rw [Registry.take]
  split
  · exact h
  · intro other k name found
    rw [find?_keep] at found
    split_ifs at found with same
    · obtain ⟨rfl, rfl⟩ := same
      exact (Option.some.inj found).symm
    · exact h other k name found

end Registry

namespace Composer

/-- A composer after some requests, each for a macro of some family and size, or for its name. -/
inductive Reached (style : Style) : Composer → Prop
  | start : Reached style (.start style)
  | step {c : Composer} (family : Family) (n : Nat) :
      Reached style c → Reached style (c.define family n).2
  | name {c : Composer} (family : Family) (n : Nat) :
      Reached style c → Reached style (c.naming family n)

/-- What requests leave as it is: the style, a registry that holds nothing but the right names, and
a source of identifiers that is as good as new. -/
structure Steady (style : Style) (c : Composer) : Prop where
  styled : c.style = style
  named : c.registry.Sound style
  sound : c.names.Sound style.reserved

/-- A composer from which parameters have been drawn, any number of times. -/
inductive Draws (c : Composer) : Composer → Prop
  | refl : Draws c c
  | next {after : Composer} (scope : Scope) (places : List Nat) :
      Draws c after → Draws c (after.params? scope places).2

variable {style : Style} {c after : Composer}

theorem Draws.drawn {later : Composer} {scope : Scope} {places : List Nat}
    {params : Option (List String)} (h : c.Draws after)
    (same : after.params? scope places = (params, later)) : c.Draws later := by
  rw [← show (after.params? scope places).2 = later by rw [same]]
  exact h.next scope places

theorem steady_start (style : Style) : Steady style (.start style) := by
  refine ⟨rfl, Registry.sound_blank style, ?_⟩
  rw [start, Style.reserved]
  cases style.avoidKeywords
  · exact Identifier.Allocator.sound_reserving []
  · exact Identifier.Allocator.sound_reserving Identifier.keywords

theorem Steady.params? (h : Steady style c) (scope : Scope) (places : List Nat) :
    Steady style (c.params? scope places).2 :=
  ⟨h.styled, h.named, Scope.sound_takeEach? h.sound scope places []⟩

theorem Steady.macroName_eq (h : Steady style c) (family : Family) (n : Nat) :
    c.macroName family n = style.macroName family n := by
  rw [macroName, h.styled, h.named.take_eq]

theorem Steady.naming (h : Steady style c) (family : Family) (n : Nat) :
    Steady style (c.naming family n) :=
  ⟨h.styled, by simpa only [Composer.naming, h.styled] using h.named.take family n, h.sound⟩

theorem Steady.namingAll (h : Steady style c) (family : Family) (sizes : List Nat) :
    Steady style (c.namingAll family sizes) := by
  induction sizes generalizing c with
  | nil => exact h
  | cons n sizes ih => exact ih (h.naming family n)

theorem pivot_namingAll (c : Composer) (family : Family) (sizes : List Nat) :
    (c.namingAll family sizes).pivot = c.pivot := by
  induction sizes generalizing c with
  | nil => rfl
  | cons n sizes ih => exact ih (c.naming family n)

theorem Draws.steady (h : c.Draws after) (steady : Steady style c) : Steady style after := by
  induction h with
  | refl => exact steady
  | next scope places _ ih => exact ih.params? scope places

theorem Draws.registry_eq (h : c.Draws after) : after.registry = c.registry := by
  induction h with
  | refl => rfl
  | next _ _ _ ih => exact ih

theorem Draws.pivot_eq (h : c.Draws after) : after.pivot = c.pivot := by
  induction h with
  | refl => rfl
  | next _ _ _ ih => exact ih

/-- A check draws its parameters, and its size may be remembered as one where the calls are
shorter. -/
theorem draws_composeCheck (c : Composer) (n : Nat) :
    ∃ after, c.Draws after ∧
      ((c.composeCheck n).2 = after ∨ (c.composeCheck n).2 = { after with pivot := some n }) := by
  rw [Composer.composeCheck]
  split
  · next after drawn => exact ⟨after, Draws.refl.drawn drawn, .inl rfl⟩
  · next params after drawn =>
    refine ⟨after, Draws.refl.drawn drawn, ?_⟩
    dsimp only
    split_ifs
    · exact .inl rfl
    · exact .inl rfl
    · exact .inr rfl
    · exact .inl rfl

/-- An enum macro draws its parameters, and nothing else changes. -/
theorem draws_composeEnum (c : Composer) (n : Nat) : c.Draws (c.composeEnum n).2 := by
  rw [Composer.composeEnum]
  split
  · next keys => exact Draws.refl.drawn keys
  · next keys =>
    split
    · next values => exact (Draws.refl.drawn keys).drawn values
    · next values =>
      have before := (Draws.refl.drawn keys).drawn values
      split
      · next names => exact before.drawn names
      · next names => exact before.drawn names

theorem Steady.composeCheck (h : Steady style c) (n : Nat) :
    Steady style (c.composeCheck n).2 := by
  obtain ⟨after, draws, same | same⟩ := draws_composeCheck c n
  · rw [same]
    exact draws.steady h
  · have steady := draws.steady h
    rw [same]
    exact ⟨steady.styled, steady.named, steady.sound⟩

theorem Steady.distinct (h : Steady style c) (n : Nat) : Steady style (c.distinct n).2 :=
  (h.namingAll .distinct _).composeCheck n

theorem Steady.composeEnum (h : Steady style c) (n : Nat) : Steady style (c.composeEnum n).2 :=
  (draws_composeEnum c n).steady h

theorem Steady.enum (h : Steady style c) (n : Nat) : Steady style (c.enum n).2 :=
  ((h.naming .enum n).namingAll .distinct _).composeEnum n

theorem Steady.define (h : Steady style c) (family : Family) (n : Nat) :
    Steady style (c.define family n).2 := by
  unfold Composer.define
  split_ifs
  · exact h
  · cases family with
    | distinct => exact h.distinct n
    | enum => exact h.enum n

theorem Reached.steady (h : Reached style c) : Steady style c := by
  induction h with
  | start => exact steady_start style
  | step family n _ ih => exact ih.define family n
  | name family n _ ih => exact ih.naming family n

/-! ### Parameters -/

/-- Parameters that differ from each other and from some names. -/
structure AreParams (names : List String) (params : List String) : Prop where
  nodup : params.Nodup
  words : ∀ p ∈ params, IsWord p ∧ p ≠ assertWord
  apart : ∀ p ∈ params, p ∉ names

theorem word_nameAt (words : List String) (scope : Scope) (i : Nat) :
    IsWord (scope.nameAt words i) ∧ scope.nameAt words i ≠ assertWord :=
  ⟨Identifier.isWord_spell _, Identifier.spell_ne_of_underscore (by decide) _⟩

theorem Steady.params?_eq (h : Steady style c) {scope : Scope} {count : Nat}
    (serves : scope.Serves count) (places : List Nat) (small : ∀ i ∈ places, i < count) :
    (c.params? scope places).1 = some (places.map (scope.nameAt style.reserved)) :=
  Scope.takeEach?_eq h.sound serves small []

theorem Steady.areParams (h : Steady style c) {names : List String} {count : Nat}
    (room : count + names.length ≤ Identifier.requestLimit) {places : List Nat}
    (nodup : places.Nodup) (small : ∀ i ∈ places, i < count) :
    AreParams names (places.map (Scope.nameAt style.reserved (.of c.names names))) := by
  refine ⟨Scope.nodup_map_nameAt (Scope.serves_of c.names names room) nodup small,
    fun p member => ?_, fun p member => ?_⟩
  · obtain ⟨i, -, rfl⟩ := List.mem_map.1 member
    exact word_nameAt _ _ i
  · obtain ⟨i, inside, rfl⟩ := List.mem_map.1 member
    exact Scope.nameAt_not_mem h.sound style.room_reserved room (small i inside)

/-- What a scope leaves out is the same for all steady composers. -/
theorem Steady.scope_eq (h : Steady style c) (names : List String) :
    Scope.of c.names names = .of (start style).names names :=
  Scope.of_eq_of_sound h.sound (steady_start style).sound names

/-- Below the bound on sizes, identifiers suffice for every macro. -/
theorem room_of_lt {n : Nat} (small : n < sizeLimit) :
    2 * n + 3 + 3 ≤ Identifier.requestLimit := by
  unfold sizeLimit at small
  unfold Identifier.requestLimit
  omega

end Composer

/-! ### Checks -/

namespace Style

/-- The calls of smaller checks in a check of some names. -/
def partCalls (s : Style) (names : List String) : List Call :=
  (pairs (parts names.length)).map fun (q, r) =>
    ⟨s.macroName .distinct (q.length + r.length), q.members names ++ r.members names⟩

/-- The names that the parameters of a check are kept apart from. -/
def checkNames (s : Style) (n : Nat) : List String :=
  if n = 2 then [] else (Composer.start s).callees n

def checkParams (s : Style) (n : Nat) : List String :=
  (List.range n).map (Scope.nameAt s.reserved (.of (Composer.start s).names (s.checkNames n)))

/-- The check of size `n`, divided into calls or not. -/
def check (s : Style) (n : Nat) (divided : Bool) : Definition :=
  { name := s.macroName .distinct n
    params := s.checkParams n
    body :=
      if divided then .calls (s.partCalls (s.checkParams n)) else .comparisons (s.checkParams n) }

/-- Whether calls make the check of size `n` shorter. -/
def prefersCalls (s : Style) (n : Nat) : Bool :=
  Composer.callsAreShorter s.assertion (.calls (s.partCalls (s.checkParams n))) (s.checkParams n)

end Style

/-- A check of `n` parameters, in either form. -/
structure Definition.IsCheck (style : Style) (n : Nat) (d : Definition) : Prop where
  name : d.name = style.macroName .distinct n
  length : d.params.length = n
  params : Composer.AreParams [] d.params
  body : d.body = .comparisons d.params ∨
    3 ≤ n ∧ d.body = .calls (style.partCalls d.params) ∧
      ∀ call ∈ style.partCalls d.params, call.callee ∉ d.params

namespace Composer

variable {style : Style} {c : Composer}

theorem length_checkParams (style : Style) (n : Nat) : (style.checkParams n).length = n := by
  rw [Style.checkParams, List.length_map, List.length_range]

theorem length_checkNames_le (style : Style) (n : Nat) : (style.checkNames n).length ≤ 3 := by
  rw [Style.checkNames]
  split_ifs
  · exact Nat.zero_le _
  · exact Nat.le_refl _

theorem room_checkNames (style : Style) {n : Nat} (small : n < sizeLimit) :
    n + (style.checkNames n).length ≤ Identifier.requestLimit := by
  have room := room_of_lt small
  have few := length_checkNames_le style n
  omega

theorem areParams_checkParams (style : Style) {n : Nat} (small : n < sizeLimit) :
    AreParams (style.checkNames n) (style.checkParams n) :=
  (steady_start style).areParams (room_checkNames style small) List.nodup_range
    fun _ => List.mem_range.1

theorem callee_mem_checkNames {n : Nat} (large : n ≠ 2) {call : Call}
    (member : call ∈ style.partCalls (style.checkParams n)) :
    call.callee ∈ style.checkNames n := by
  obtain ⟨⟨q, r⟩, inside, rfl⟩ := List.mem_map.1 member
  rw [length_checkParams] at inside
  rw [Style.checkNames, if_neg large, Composer.callees, Composer.calleeSizes_eq_map]
  refine List.mem_map.2 ⟨_, List.mem_map.2 ⟨(q, r), inside, rfl⟩, ?_⟩
  exact (steady_start style).macroName_eq .distinct _

theorem isCheck_check (style : Style) {n : Nat} (least : 2 ≤ n) (small : n < sizeLimit)
    {divided : Bool} (large : divided = true → n ≠ 2) :
    (style.check n divided).IsCheck style n := by
  have areParams := areParams_checkParams style small
  refine ⟨rfl, length_checkParams style n,
    ⟨areParams.nodup, areParams.words, fun _ _ => List.not_mem_nil⟩, ?_⟩
  cases divided with
  | false => exact .inl rfl
  | true =>
    refine .inr ⟨?_, rfl, fun call member inside => ?_⟩
    · have := large rfl
      omega
    · exact areParams.apart _ inside (callee_mem_checkNames (large rfl) member)

theorem Steady.distinctScope_eq (h : Steady style c) (n : Nat) :
    c.distinctScope n = .of (start style).names (style.checkNames n) := by
  have callees : c.callees n = (start style).callees n :=
    List.map_congr_left fun m _ =>
      (h.macroName_eq .distinct m).trans ((steady_start style).macroName_eq .distinct m).symm
  rw [← h.scope_eq, distinctScope, Style.checkNames, callees]
  split_ifs <;> rfl

/-- The check of a size depends on requests before it only by its form, and by its form only until
the calls are found to be shorter. -/
theorem Steady.composeCheck_eq (h : Steady style c) {n : Nat} (small : n < sizeLimit) :
    (c.composeCheck n).1 =
      some (style.check n (n != 2 && (c.hasPivot n || style.prefersCalls n))) ∧
    (c.composeCheck n).2.pivot =
      if n ≠ 2 ∧ c.hasPivot n = false ∧ style.prefersCalls n = true then some n else c.pivot := by
  have serves : (c.distinctScope n).Serves n := by
    rw [h.distinctScope_eq]
    exact Scope.serves_of _ _ (room_checkNames style small)
  have drawn : (c.params? (c.distinctScope n) (List.range n)).1 = some (style.checkParams n) := by
    rw [h.params?_eq serves _ fun i => List.mem_range.1, h.distinctScope_eq]
    rfl
  have kept : (c.params? (c.distinctScope n) (List.range n)).2.pivot = c.pivot := rfl
  have name : c.checkName n = style.macroName .distinct n := h.macroName_eq .distinct n
  have called : c.partCalls (style.checkParams n) =
      .calls (style.partCalls (style.checkParams n)) := by
    simp only [partCalls, Style.partCalls, checkName, h.macroName_eq]
  rw [Composer.composeCheck]
  split
  · next after same => exact absurd drawn (by simp [same])
  · next params after same =>
    rw [same] at drawn kept
    obtain rfl : params = style.checkParams n := Option.some.inj drawn
    change after.pivot = c.pivot at kept
    have measured : callsAreShorter style.assertion (.calls (style.partCalls (style.checkParams n)))
        (style.checkParams n) = style.prefersCalls n := rfl
    simp only [name, called, h.styled, measured]
    by_cases two : n = 2
    · simp [two, Style.check, kept]
    · by_cases pivot : c.hasPivot n = true
      · simp [two, pivot, Style.check, kept]
      · by_cases shorter : style.prefersCalls n = true
        · simp [two, pivot, shorter, Style.check]
        · simp [two, pivot, shorter, Style.check, kept]

theorem Steady.distinct_eq (h : Steady style c) {n : Nat} (small : n < sizeLimit) :
    (c.distinct n).1 = some (style.check n (n != 2 && (c.hasPivot n || style.prefersCalls n))) ∧
    (c.distinct n).2.pivot =
      if n ≠ 2 ∧ c.hasPivot n = false ∧ style.prefersCalls n = true then some n else c.pivot := by
  have composed :=
    (h.namingAll .distinct (n :: if n = 2 then [] else calleeSizes n)).composeCheck_eq small
  rwa [hasPivot, pivot_namingAll] at composed

/-- Every check is defined whose size is in bounds. -/
theorem Steady.distinct_spec (h : Steady style c) {n : Nat} (least : 2 ≤ n)
    (small : n < sizeLimit) : ∃ d, (c.distinct n).1 = some d ∧ d.IsCheck style n := by
  refine ⟨_, (h.distinct_eq small).1, isCheck_check style least small fun divided => ?_⟩
  rw [Bool.and_eq_true, bne_iff_ne] at divided
  exact divided.1

end Composer

/-! ### Enums -/

namespace Style

/-- The names that the parameters of an enum macro are kept apart from. -/
def enumNames (s : Style) (n : Nat) : List String :=
  [enumWord, s.macroName .enum n] ++ if 2 ≤ n then [s.macroName .distinct n] else []

def enumParam (s : Style) (n i : Nat) : String :=
  Scope.nameAt s.reserved (.of (Composer.start s).names (s.enumNames n)) i

/-- The enum macro of size `n`. -/
def enumMacro (s : Style) (n : Nat) : Definition :=
  (Composer.start s).enumOf n ((List.range n).map (s.enumParam n))
    ((List.range' n n).map (s.enumParam n)) (s.enumParam n (2 * n + 1)) (s.enumParam n (2 * n + 2))

end Style

/-- The declaration of an enum with `n` enumerators, which are checked when there are at least
two. -/
structure Definition.IsDeclaration (style : Style) (n : Nat) (d : Definition)
    (declaration : Declaration) : Prop where
  name : d.name = style.macroName .enum n
  params : Composer.AreParams (style.enumNames n) d.params
  listed : d.params = declaration.name ::
    declaration.enumerators.flatMap (fun (key, value) => [key, value]) ++ [declaration.type]
  length : declaration.enumerators.length = n
  body : d.body = .declaration declaration
  check : declaration.check =
    if 2 ≤ n then
      some ⟨style.macroName .distinct n, declaration.enumerators.map Prod.fst⟩
    else none

namespace Definition.IsDeclaration

variable {style : Style} {n : Nat} {d : Definition} {declaration : Declaration}

theorem isWord (h : d.IsDeclaration style n declaration) {p : String} (member : p ∈ d.params) :
    IsWord p := (h.params.words p member).1

theorem named (h : d.IsDeclaration style n declaration) : IsWord declaration.name :=
  h.isWord (by simp [h.listed])

theorem typed (h : d.IsDeclaration style n declaration) : IsWord declaration.type :=
  h.isWord (by simp [h.listed])

theorem enumerators (h : d.IsDeclaration style n declaration) :
    ∀ e ∈ declaration.enumerators, IsWord e.1 ∧ IsWord e.2 := by
  intro e member
  have listed : ∀ p ∈ [e.1, e.2], p ∈ d.params := by
    intro p either
    have inside : p ∈ declaration.enumerators.flatMap fun (key, value) => [key, value] :=
      List.mem_flatMap.2 ⟨e, member, either⟩
    simp [h.listed, inside]
  exact ⟨h.isWord (listed _ (by simp)), h.isWord (listed _ (by simp))⟩

end Definition.IsDeclaration

namespace Composer

variable {style : Style} {c : Composer}

theorem Steady.enumScope_eq (h : Steady style c) (n : Nat) :
    c.enumScope n = .of (start style).names (style.enumNames n) := by
  rw [← h.scope_eq]
  simp only [enumScope, Style.enumNames, checkName, h.macroName_eq]

theorem room_enumNames (style : Style) {n : Nat} (small : n < sizeLimit) :
    2 * n + 3 + (style.enumNames n).length ≤ Identifier.requestLimit := by
  have room := room_of_lt small
  rw [Style.enumNames]
  split_ifs
  · simpa using room
  · exact Nat.le_of_succ_le room

theorem nodup_enumPlaces (n : Nat) :
    (List.range n ++ List.range' n n ++ [2 * n + 1, 2 * n + 2]).Nodup := by
  have first : (List.range n ++ List.range' n n).Nodup := by
    rw [List.range'_eq_map_range, ← List.range_add]
    exact List.nodup_range
  refine List.nodup_append.2 ⟨first, by simp, fun i below j above => ?_⟩
  simp only [List.mem_append, List.mem_range, List.mem_range'_1, List.mem_cons,
    List.not_mem_nil, or_false] at below above
  omega

theorem areParams_enumParams (style : Style) {n : Nat} (small : n < sizeLimit) :
    AreParams (style.enumNames n)
      ((List.range n ++ List.range' n n ++ [2 * n + 1, 2 * n + 2]).map (style.enumParam n)) := by
  refine (steady_start style).areParams (room_enumNames style small) (nodup_enumPlaces n)
    fun i member => ?_
  simp only [List.mem_append, List.mem_range, List.mem_range'_1, List.mem_cons,
    List.not_mem_nil, or_false] at member
  omega

theorem perm_interleaved {α : Type} {xs ys : List α} (length : xs.length = ys.length) :
    ((xs.zip ys).flatMap fun (x, y) => [x, y]).Perm (xs ++ ys) := by
  induction xs generalizing ys with
  | nil =>
    obtain rfl : ys = [] := List.length_eq_zero_iff.1 length.symm
    exact .nil
  | cons x xs ih =>
    match ys, length with
    | y :: ys, length =>
      have rest : ((xs.zip ys).flatMap fun (x, y) => [x, y]).Perm (xs ++ ys) :=
        ih (Nat.succ.inj length)
      exact (rest.cons y |>.trans List.perm_middle.symm).cons x

theorem AreParams.perm {names ps qs : List String} (h : AreParams names ps) (same : qs.Perm ps) :
    AreParams names qs :=
  ⟨same.nodup_iff.2 h.nodup, fun p member => h.words p (same.mem_iff.1 member),
    fun p member => h.apart p (same.mem_iff.1 member)⟩

/-- The parameters of an enum macro are listed in another order than that of their places. -/
theorem perm_enumParams (style : Style) (n : Nat) :
    (style.enumMacro n).params.Perm
      ((List.range n ++ List.range' n n ++ [2 * n + 1, 2 * n + 2]).map (style.enumParam n)) := by
  have inner := perm_interleaved (show ((List.range n).map (style.enumParam n)).length =
    ((List.range' n n).map (style.enumParam n)).length by simp)
  rw [List.map_append, List.map_append]
  exact ((inner.append_right [_]).cons _).trans List.perm_middle.symm

theorem exists_isDeclaration (style : Style) {n : Nat} (small : n < sizeLimit) :
    ∃ declaration, (style.enumMacro n).IsDeclaration style n declaration := by
  refine ⟨_, rfl, (areParams_enumParams style small).perm (perm_enumParams style n), rfl, ?_, rfl,
    ?_⟩
  · simp
  · simp [checkName, (steady_start style).macroName_eq, List.map_fst_zip]

/-- The enum macro of a size does not depend on requests before it. -/
theorem Steady.composeEnum_eq (h : Steady style c) {n : Nat} (small : n < sizeLimit) :
    (c.composeEnum n).1 = some (style.enumMacro n) := by
  have serves : (c.enumScope n).Serves (2 * n + 3) := by
    rw [h.enumScope_eq]
    exact Scope.serves_of _ _ (room_enumNames style small)
  have drawn {c' : Composer} (h' : Steady style c') (places : List Nat)
      (below : ∀ i ∈ places, i < 2 * n + 3) :
      (c'.params? (c.enumScope n) places).1 = some (places.map (style.enumParam n)) := by
    rw [h'.params?_eq serves places below, h.enumScope_eq]
    rfl
  have first := drawn h (List.range n) fun i member => by
    have := List.mem_range.1 member
    omega
  have kept := h.params? (c.enumScope n) (List.range n)
  rw [Composer.composeEnum]
  split
  · next after same => exact absurd first (by simp [same])
  · next keys c' same =>
    rw [same] at first kept
    obtain rfl := Option.some.inj first
    have second := drawn kept (List.range' n n) fun i member => by
      have := List.mem_range'_1.1 member
      omega
    have kept := kept.params? (c.enumScope n) (List.range' n n)
    split
    · next after same => exact absurd second (by simp [same])
    · next values c'' same =>
      rw [same] at second kept
      obtain rfl := Option.some.inj second
      have third := drawn kept [2 * n + 1, 2 * n + 2] (by simp)
      have kept := kept.params? (c.enumScope n) [2 * n + 1, 2 * n + 2]
      split
      · next name type after same =>
        rw [same] at third kept
        obtain ⟨rfl, rfl⟩ : name = _ ∧ type = _ := by simpa using third
        simp only [enumOf, Style.enumMacro, checkName, kept.macroName_eq,
          (steady_start style).macroName_eq]
      · next after other same =>
        rw [same] at third
        exact (other _ _ third).elim

theorem Steady.enum_eq (h : Steady style c) {n : Nat} (small : n < sizeLimit) :
    (c.enum n).1 = some (style.enumMacro n) :=
  ((h.naming .enum n).namingAll .distinct _).composeEnum_eq small

/-- Every enum macro is defined whose size is in bounds. -/
theorem Steady.enum_spec (h : Steady style c) {n : Nat} (small : n < sizeLimit) :
    ∃ d declaration, (c.enum n).1 = some d ∧ d.IsDeclaration style n declaration := by
  obtain ⟨declaration, declares⟩ := exists_isDeclaration style small
  exact ⟨_, declaration, h.enum_eq small, declares⟩

/-! ### Lines -/

/-- Every macro is defined that a family has within bounds. -/
theorem Steady.exists_define (h : Steady style c) {family : Family} {n : Nat}
    (least : family.least ≤ n) (small : n < sizeLimit) : ∃ d, (c.define family n).1 = some d := by
  rw [Composer.define.eq_def, if_neg (Nat.not_lt.2 least)]
  cases family with
  | distinct =>
    obtain ⟨d, found, -⟩ := h.distinct_spec least small
    exact ⟨d, found⟩
  | enum =>
    obtain ⟨d, -, found, -⟩ := h.enum_spec small
    exact ⟨d, found⟩

/-- A macro that is asked for once more is the same: by then it is known which form is shorter. -/
theorem Steady.define_again (h : Steady style c) (family : Family) {n : Nat}
    (small : n < sizeLimit) :
    ((c.define family n).2.define family n).1 = (c.define family n).1 := by
  by_cases below : n < family.least
  · simp only [Composer.define.eq_def, if_pos below]
  · simp only [Composer.define.eq_def, if_neg below]
    cases family with
    | enum => rw [h.enum_eq small, (h.enum n).enum_eq small]
    | distinct =>
      obtain ⟨first, pivot⟩ := h.distinct_eq small
      obtain ⟨again, -⟩ := (h.distinct n).distinct_eq small
      rw [first, again]
      by_cases two : n = 2
      · simp [two]
      · have known : ((c.distinct n).2.hasPivot n || style.prefersCalls n) =
            (c.hasPivot n || style.prefersCalls n) := by
          rw [hasPivot, pivot]
          split_ifs with shorter
          · simp [shorter.2.2]
          · rfl
        rw [known]

theorem Steady.defineLine_again (h : Steady style c) (family : Family) {n : Nat}
    (small : n < sizeLimit) :
    ((c.defineLine family n).2.defineLine family n).1 = (c.defineLine family n).1 := by
  have written : (c.define family n).2.line = c.line := by
    funext d
    rw [line, line, (h.define family n).styled, h.styled]
  simp only [defineLine, h.define_again family small, written]

end Composer

/-- Some composer in the style, after any requests, writes the line for a family's macro of size
`n`. -/
def Style.Prints (style : Style) (family : Family) (n : Nat) (line : Line) : Prop :=
  ∃ c, Composer.Reached style c ∧ (c.defineLine family n).1 = some line

namespace Style

variable {style : Style} {n : Nat} {line : Line}

theorem exists_prints {c : Composer} (h : Composer.Reached style c) {family : Family}
    (least : family.least ≤ n) (small : n < sizeLimit) :
    ∃ line, (c.defineLine family n).1 = some line := by
  obtain ⟨d, found⟩ := h.steady.exists_define least small
  exact ⟨c.line d, by simp [Composer.defineLine, found]⟩

theorem Prints.least {family : Family} (h : style.Prints family n line) : family.least ≤ n := by
  obtain ⟨c, -, printed⟩ := h
  by_contra below
  simp [Composer.defineLine, Composer.define.eq_def, Nat.lt_of_not_le below] at printed

theorem Prints.isCheck (h : style.Prints .distinct n line) (small : n < sizeLimit) :
    ∃ d : Definition, d.IsCheck style n ∧ line = d.line style.assertion := by
  have least := h.least
  obtain ⟨c, reached, printed⟩ := h
  obtain ⟨d, found, check⟩ := reached.steady.distinct_spec least small
  refine ⟨d, check, ?_⟩
  rw [Composer.defineLine, Composer.define.eq_def, if_neg (Nat.not_lt.2 least)] at printed
  simp only [found, Option.map_some, Option.some.injEq] at printed
  rw [← printed, Composer.line, reached.steady.styled]

theorem Prints.isDeclaration (h : style.Prints .enum n line) (small : n < sizeLimit) :
    ∃ (d : Definition) (declaration : Declaration),
      d.IsDeclaration style n declaration ∧ line = d.line style.assertion := by
  have least := h.least
  obtain ⟨c, reached, printed⟩ := h
  obtain ⟨d, declaration, found, declares⟩ := reached.steady.enum_spec small
  refine ⟨d, declaration, declares, ?_⟩
  rw [Composer.defineLine, Composer.define.eq_def, if_neg (Nat.not_lt.2 least)] at printed
  simp only [found, Option.map_some, Option.some.injEq] at printed
  rw [← printed, Composer.line, reached.steady.styled]

end Style

end EnumMacros
