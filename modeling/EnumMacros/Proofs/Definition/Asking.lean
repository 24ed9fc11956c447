import EnumMacros.Proofs.Definition.Hygiene

/-! The sizes that a composer is asked for. Each request leaves the name of its macro behind, next
to those of the smaller checks that the macro may call, so the registry tells whether macros above
some size have been asked for: `askedUpTo_define_iff`. A macro of size `n` has `n` parameters at
least, and with what stands between them its line takes up twice as many bytes. -/

namespace EnumMacros

namespace Composer

/-- No macro above a size has been asked for. -/
def AskedUpTo (bound : Nat) (c : Composer) : Prop :=
  ∀ family n, bound < n → c.registry.find? family n = none

variable {bound : Nat} {c : Composer}

theorem askedUpTo_start (style : Style) (bound : Nat) : (start style).AskedUpTo bound :=
  fun family n _ => Registry.find?_blank family n

/-! ### Names -/

/-- A name that is asked for is kept, and no other one is. -/
theorem find?_naming (c : Composer) (family other : Family) (n k : Nat) :
    (c.naming family n).registry.find? other k =
      if other = family ∧ k = n then some (c.macroName family n) else c.registry.find? other k := by
  rw [naming, macroName, Registry.take]
  split
  · next name found =>
    split_ifs with same
    · rw [same.1, same.2, found]
    · rfl
  · rw [Registry.find?_keep]

theorem askedUpTo_naming_iff {family : Family} {n : Nat} :
    (c.naming family n).AskedUpTo bound ↔ c.AskedUpTo bound ∧ n ≤ bound := by
  simp only [AskedUpTo, find?_naming]
  constructor
  · intro asked
    refine ⟨fun other k above => ?_, Nat.le_of_not_lt fun above => ?_⟩
    · have unnamed := asked other k above
      split_ifs at unnamed
      exact unnamed
    · have unnamed := asked family n above
      rw [if_pos ⟨rfl, rfl⟩] at unnamed
      exact nomatch unnamed
  · rintro ⟨asked, le⟩ other k above
    rw [if_neg fun same => by omega]
    exact asked other k above

theorem askedUpTo_namingAll_iff {family : Family} {sizes : List Nat} :
    (c.namingAll family sizes).AskedUpTo bound ↔
      c.AskedUpTo bound ∧ ∀ n ∈ sizes, n ≤ bound := by
  induction sizes generalizing c with
  | nil => exact ⟨fun asked => ⟨asked, fun _ member => absurd member List.not_mem_nil⟩, And.left⟩
  | cons n sizes ih =>
    rw [namingAll, List.foldl_cons, ← namingAll, ih, askedUpTo_naming_iff, List.forall_mem_cons,
      and_assoc]

/-! ### Macros -/

theorem registry_composeCheck (c : Composer) (n : Nat) :
    (c.composeCheck n).2.registry = c.registry := by
  obtain ⟨after, draws, same | same⟩ := draws_composeCheck c n
  · rw [same, draws.registry_eq]
  · rw [same]
    exact draws.registry_eq

theorem askedUpTo_congr {c' : Composer} (same : c'.registry = c.registry) :
    c'.AskedUpTo bound ↔ c.AskedUpTo bound := by
  simp only [AskedUpTo, same]

theorem calleeSizes_le {n k : Nat} (member : k ∈ calleeSizes n) : k ≤ n := by
  have two_thirds := (mem_calleeSizes_iff.1 member).2
  omega

theorem askedUpTo_distinct_iff {n : Nat} :
    (c.distinct n).2.AskedUpTo bound ↔ c.AskedUpTo bound ∧ n ≤ bound := by
  rw [distinct, askedUpTo_congr (registry_composeCheck _ n), askedUpTo_namingAll_iff,
    List.forall_mem_cons]
  refine and_congr_right fun _ => and_iff_left_of_imp fun le k member => ?_
  split_ifs at member with two
  · exact absurd member List.not_mem_nil
  · exact (calleeSizes_le member).trans le

theorem askedUpTo_enum_iff {n : Nat} :
    (c.enum n).2.AskedUpTo bound ↔ c.AskedUpTo bound ∧ n ≤ bound := by
  rw [Composer.enum, askedUpTo_congr (draws_composeEnum _ n).registry_eq, askedUpTo_namingAll_iff,
    askedUpTo_naming_iff]
  refine and_iff_left_of_imp fun asked k member => ?_
  split_ifs at member with two
  · rw [List.mem_singleton.1 member]
    exact asked.2
  · exact absurd member List.not_mem_nil

/-- A request for a macro is a request for its size, and for no larger one. -/
theorem askedUpTo_define_iff {family : Family} {n : Nat} (least : family.least ≤ n) :
    (c.define family n).2.AskedUpTo bound ↔ c.AskedUpTo bound ∧ n ≤ bound := by
  rw [Composer.define.eq_def, if_neg (Nat.not_lt.2 least)]
  cases family with
  | distinct => exact askedUpTo_distinct_iff
  | enum => exact askedUpTo_enum_iff

theorem AskedUpTo.define (h : c.AskedUpTo bound) (family : Family) {n : Nat} (le : n ≤ bound) :
    (c.define family n).2.AskedUpTo bound := by
  by_cases least : family.least ≤ n
  · exact (askedUpTo_define_iff least).2 ⟨h, le⟩
  · rw [Composer.define.eq_def, if_pos (Nat.lt_of_not_le least)]
    exact h

theorem AskedUpTo.defineLine (h : c.AskedUpTo bound) {family : Family} {n : Nat} (le : n ≤ bound)
    {line : Option Line} {after : Composer} (same : c.defineLine family n = (line, after)) :
    after.AskedUpTo bound := by
  rw [← show (c.defineLine family n).2 = after by rw [same]]
  exact h.define family le

end Composer

/-! ### Bytes of a line -/

theorem utf8ByteSize_pos_of_isWord {name : String} (h : Identifier.IsWord name) :
    1 ≤ name.utf8ByteSize := by
  rw [h.utf8ByteSize]
  exact List.length_pos_iff.2 h.1

namespace Line

theorem two_mul_le_size {l : Line} (words : ∀ p ∈ l.params, Identifier.IsWord p) :
    2 * l.params.length ≤ l.size := by
  have each : ∀ p ∈ l.params, 1 ≤ p.utf8ByteSize := fun p member =>
    utf8ByteSize_pos_of_isWord (words p member)
  have all := length_mul_le_total each
  rw [size]
  omega

end Line

namespace Style

variable {style : Style} {family : Family} {n : Nat} {line : Line}

theorem two_mul_le_size (params : line.params = style.params family n) : 2 * n ≤ line.size := by
  have bytes : 2 * line.params.length ≤ line.size := Line.two_mul_le_size fun p member => by
    rw [params] at member
    obtain ⟨i, -, rfl⟩ := exists_place member
    exact (Composer.word_nameAt style.reserved (style.scope family n) i).1
  have count : n ≤ line.params.length := by
    rw [params, length_params]
    cases family with
    | distinct => exact Nat.le_refl n
    | enum =>
      show n ≤ 2 * n + 2
      omega
  omega

theorem Prints.two_mul_le_size (h : style.Prints family n line) (small : n < sizeLimit) :
    2 * n ≤ line.size :=
  Style.two_mul_le_size (h.params_eq small)

end Style

end EnumMacros
