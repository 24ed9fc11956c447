import EnumMacros.Proofs.Header.Placing

/-! How the directories of headers go with the sizes in the headers. A header is nested by digits
that both ends of its span begin with. If both ends are written with the same number of digits, then
every size between them begins like that too. Otherwise there is a power of ten among the sizes, and
the number before it, and nothing is left that these two begin with: the directories are named for
all sizes in the header only if there are none below that of the family, `nesting_starts_iff`. -/

namespace EnumMacros.Layout

/-- The digits that the directories of a header bear, from that of the family down. -/
def nesting (family : Family) (span : Span) (groupLength : Nat) : List Char :=
  (String.join (directory family span groupLength).tail).toList

theorem flatten_groups_starts {α : Type} (length : Nat) (xs : List α) :
    (groups length xs).flatten <+: xs := by
  fun_induction groups length xs with
  | case1 => exact List.nil_prefix
  | case2 xs more ih =>
    rw [List.flatten_cons]
    calc xs.take length ++ (groups length (xs.drop length)).flatten
        <+: xs.take length ++ xs.drop length := (List.prefix_append_right_inj _).2 ih
      _ = xs := List.take_append_drop length xs

theorem nesting_eq (family : Family) (span : Span) (groupLength : Nat) :
    nesting family span groupLength = (groups groupLength (nestingDigits span)).flatten := by
  rw [nesting, directory, List.tail_cons, String.toList_join, List.flatMap_map]
  simp only [String.toList_ofList, List.flatMap_id']

/-- No directory bears an empty name. -/
theorem nesting_eq_nil_iff {family : Family} {span : Span} {groupLength : Nat} :
    nesting family span groupLength = [] ↔ (directory family span groupLength).tail = [] := by
  rw [nesting_eq, directory, List.tail_cons, List.map_eq_nil_iff, List.flatten_eq_nil_iff]
  constructor
  · intro empty
    exact List.eq_nil_iff_forall_not_mem.2 fun group member =>
      (mem_groups member).1 (empty group member)
  · intro none group member
    rw [none] at member
    exact absurd member List.not_mem_nil

theorem nesting_starts (family : Family) (span : Span) (groupLength : Nat) :
    nesting family span groupLength <+: Nat.toDigits 10 span.first ∧
      nesting family span groupLength <+: Nat.toDigits 10 span.last := by
  have levels := flatten_groups_starts groupLength (nestingDigits span)
  rw [nesting_eq]
  exact ⟨levels.trans (nestingDigits_starts span).1, levels.trans (nestingDigits_starts span).2⟩

/-- The digits by which a header is nested begin both ends of its span. They begin every size in the
header exactly if both ends have the same number of digits, or if there are none, so that the header
stands in the directory of its family. -/
theorem nesting_starts_iff {span : Span} (forward : span.first ≤ span.last) (family : Family)
    (groupLength : Nat) :
    (nesting family span groupLength <+: (Text.decimal span.first).toList ∧
      nesting family span groupLength <+: (Text.decimal span.last).toList) ∧
    ((∀ n ∈ span.sizes, nesting family span groupLength <+: (Text.decimal n).toList) ↔
      (directory family span groupLength).tail = [] ∨
        (Text.decimal span.first).toList.length = (Text.decimal span.last).toList.length) := by
  simp only [Text.toList_decimal, Span.mem_sizes]
  obtain ⟨left, right⟩ := nesting_starts family span groupLength
  refine ⟨⟨left, right⟩, ?only, ?enough⟩
  case only =>
    intro starts
    by_cases same : (Nat.toDigits 10 span.first).length = (Nat.toDigits 10 span.last).length
    · exact .inr same
    · refine .inl (nesting_eq_nil_iff.1 (Text.eq_nil_of_starts_all forward same ?_))
      exact fun n above below => starts n ⟨above, below⟩
  case enough =>
    rintro (none | same) n ⟨above, below⟩
    · rw [nesting_eq_nil_iff.2 none]
      exact List.nil_prefix
    · exact Text.starts_between left right same above below

theorem nesting_starts_of_long_numbers :
    1200 ≤ 1209 ∧ directory .distinct ⟨1200, 1209⟩ 2 = ["areuniq", "12"] ∧
      ∀ n ∈ (Span.mk 1200 1209).sizes,
        nesting .distinct ⟨1200, 1209⟩ 2 <+: (Text.decimal n).toList := by
  have forward : (Span.mk 1200 1209).first ≤ (Span.mk 1200 1209).last := by decide
  exact ⟨forward, by decide +kernel,
    (nesting_starts_iff forward .distinct 2).2.2 (.inr (by decide))⟩

/-- From 1 to 10 both ends begin with the same digit, but the sizes between them do not. -/
theorem nesting_beside_sizes :
    1 ≤ 10 ∧ directory .enum ⟨1, 10⟩ 1 = ["uniqenum", "1"] ∧ 2 ∈ (Span.mk 1 10).sizes ∧
      ¬nesting .enum ⟨1, 10⟩ 1 <+: (Text.decimal 2).toList := by
  decide +kernel

end EnumMacros.Layout
