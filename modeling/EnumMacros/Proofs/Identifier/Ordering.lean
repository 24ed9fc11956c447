import EnumMacros.Identifier.Order
import EnumMacros.Proofs.Identifier.Numbering

/-! The order of names is the order of their raw indices: shorter identifiers lie in earlier blocks,
and within a block the first difference of two identifiers is that of their digits. -/

namespace EnumMacros.Identifier

theorem rank_symbolOf {d : Nat} (hd : d < base) : rank (symbolOf d) = d := by
  simp [rank, digit?_symbolOf d hd]

theorem placeOf_eq (lead : Nat) (tail : List Nat) :
    placeOf lead tail = blockStart tail.length + value (lead :: tail) := by
  rw [placeOf, value, Nat.add_assoc]

/-- Digits of one length compare by their first difference, as their values do. -/
theorem compareChars_symbols {ds es : List Nat} (hd : ∀ d ∈ ds, d < base) (he : ∀ e ∈ es, e < base)
    (length : ds.length = es.length) :
    compareChars (ds.map symbolOf) (es.map symbolOf) = compare (value ds) (value es) := by
  induction ds generalizing es with
  | nil =>
    obtain rfl : es = [] := List.length_eq_zero_iff.1 length.symm
    rfl
  | cons d ds ih =>
    match es, length with
    | e :: es, length =>
      rw [List.length_cons, List.length_cons, Nat.add_right_cancel_iff] at length
      rw [List.forall_mem_cons] at hd he
      have below := value_lt hd.2
      have below' := value_lt he.2
      rw [List.map_cons, List.map_cons, compareChars, value, value]
      by_cases same : d = e
      · subst same
        rw [if_pos rfl, ih hd.2 he.2 length, length]
        simp only [Nat.compare_eq_ite_lt, Nat.add_lt_add_iff_left]
      · rw [if_neg fun h => same (symbolOf_injective hd.1 he.1 h), rank_symbolOf hd.1,
          rank_symbolOf he.1]
        rw [length] at below ⊢
        rcases Nat.lt_or_gt_of_ne same with lt | gt
        · have room := Nat.mul_le_mul_right (runs es.length) lt
          rw [Nat.succ_mul] at room
          rw [Nat.compare_eq_lt.2 lt, Nat.compare_eq_lt.2 (by omega)]
        · have room := Nat.mul_le_mul_right (runs es.length) gt
          rw [Nat.succ_mul] at room
          rw [Nat.compare_eq_gt.2 gt, Nat.compare_eq_gt.2 (by omega)]

/-- A shorter identifier has a smaller raw index. -/
theorem placeOf_lt_of_length {lead lead' : Nat} {tail tail' : List Nat} (hlead : lead < leads)
    (htail : ∀ d ∈ tail, d < base) (shorter : tail.length < tail'.length) :
    placeOf lead tail < placeOf lead' tail' :=
  calc placeOf lead tail
    _ < blockStart (tail.length + 1) := placeOf_lt hlead htail
    _ ≤ blockStart tail'.length := blockStart_mono shorter
    _ ≤ placeOf lead' tail' := by rw [placeOf_eq]; exact Nat.le_add_right _ _

/-- Identifiers come in the order of their raw indices. -/
theorem compareNames_spell (i j : Nat) : compareNames (spell i) (spell j) = compare i j := by
  by_cases same : i = j
  · subst same
    rw [compareNames_self, Nat.compare_eq_eq.2 rfl]
  · have wide : leads ≤ base := by decide
    have different : spell i ≠ spell j := fun h => same (spell_injective h)
    rw [compareNames, if_neg different, toList_spell, toList_spell]
    obtain ⟨x, xs, hx, hxs, spelled, rfl⟩ := spellChars_eq i
    obtain ⟨y, ys, hy, hys, spelled', rfl⟩ := spellChars_eq j
    rw [spelled, spelled', List.length_cons, List.length_cons, List.length_map, List.length_map]
    rcases Nat.lt_trichotomy xs.length ys.length with lt | eq | gt
    · rw [Nat.compare_eq_lt.2 (Nat.succ_lt_succ lt),
        Nat.compare_eq_lt.2 (placeOf_lt_of_length hx hxs lt)]
      rfl
    · have first : ∀ d ∈ x :: xs, d < base := List.forall_mem_cons.2 ⟨hx.trans_le wide, hxs⟩
      have second : ∀ d ∈ y :: ys, d < base := List.forall_mem_cons.2 ⟨hy.trans_le wide, hys⟩
      have digits := compareChars_symbols first second (by simp [eq])
      rw [List.map_cons, List.map_cons] at digits
      rw [eq, Nat.compare_eq_eq.2 rfl, digits, placeOf_eq, placeOf_eq, eq]
      simp only [Nat.compare_eq_ite_lt, Nat.add_lt_add_iff_left]
      rfl
    · rw [Nat.compare_eq_gt.2 (Nat.succ_lt_succ gt),
        Nat.compare_eq_gt.2 (placeOf_lt_of_length hy hys gt)]
      rfl

end EnumMacros.Identifier
