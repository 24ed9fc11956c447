import EnumMacros.Proofs.Text.Numerals
import EnumMacros.Size.Span
import EnumMacros.Text.Pieces

/-! Ranges as they are asked for. A text is read as a range exactly when it is one size, a size and
a dash, or two sizes in order with a dash between them, with blanks around each; every other text is
refused, and a span is read back from the text that it is written in: `parse_accepts_ranges`. The
first dash divides the text, since a size has none. -/

namespace EnumMacros

namespace Request

/-- A size with blanks around it. -/
def IsEnd (cs : List Char) (n : Nat) : Prop :=
  ∃ before numeral after, Text.AreBlanks before ∧ Text.AreBlanks after ∧
    cs = before ++ numeral ++ after ∧ Text.IsUnsigned numeral n ∧ n < sizeLimit

/-- The texts of ranges. -/
inductive IsRange : List Char → Request → Prop
  | single {cs : List Char} {n : Nat} : IsEnd cs n → IsRange cs ⟨n, some n⟩
  | endless {left blanks : List Char} {first : Nat} : IsEnd left first → Text.AreBlanks blanks →
      IsRange (left ++ '-' :: blanks) ⟨first, none⟩
  | bounded {left right : List Char} {first last : Nat} : IsEnd left first → IsEnd right last →
      first ≤ last → IsRange (left ++ '-' :: right) ⟨first, some last⟩

/-! ### Sides -/

theorem readSize_eq_some_iff {cs : List Char} {n : Nat} : readSize cs = some n ↔ IsEnd cs n := by
  rw [readSize, Text.readBelow_eq_some_iff]
  constructor
  · rintro ⟨unsigned, small⟩
    obtain ⟨before, after, left, right, whole⟩ := Text.exists_trimBlanks cs
    exact ⟨before, _, after, left, right, whole, unsigned, small⟩
  · rintro ⟨before, numeral, after, left, right, rfl, unsigned, small⟩
    rw [Text.trimBlanks_append left right unsigned.nonempty unsigned.isBlank]
    exact ⟨unsigned, small⟩

theorem readSize_eq_none_iff {cs : List Char} : readSize cs = none ↔ ∀ n, ¬IsEnd cs n := by
  simp only [Option.eq_none_iff_forall_ne_some, ne_eq, readSize_eq_some_iff]

theorem IsEnd.unique {cs : List Char} {n m : Nat} (h : IsEnd cs n) (h' : IsEnd cs m) : n = m :=
  Option.some.inj ((readSize_eq_some_iff.2 h).symm.trans (readSize_eq_some_iff.2 h'))

theorem dash_notMem_of_areBlanks {cs : List Char} (h : Text.AreBlanks cs) : '-' ∉ cs :=
  fun member => absurd (h _ member) (by decide)

theorem IsEnd.dash_notMem {cs : List Char} {n : Nat} (h : IsEnd cs n) : '-' ∉ cs := by
  obtain ⟨before, numeral, after, left, right, rfl, unsigned, -⟩ := h
  simp only [List.mem_append, not_or]
  refine ⟨⟨dash_notMem_of_areBlanks left, fun member => ?_⟩, dash_notMem_of_areBlanks right⟩
  exact absurd (unsigned.mem _ member) (by decide)

/-- Blanks are no size. -/
theorem IsEnd.not_areBlanks {cs : List Char} {n : Nat} (h : IsEnd cs n) : ¬Text.AreBlanks cs := by
  obtain ⟨before, numeral, after, -, -, rfl, unsigned, -⟩ := h
  intro blanks
  obtain ⟨c, rest, rfl⟩ := List.exists_cons_of_ne_nil unsigned.nonempty
  have solid := unsigned.isBlank c List.mem_cons_self
  rw [blanks c (by simp)] at solid
  exact absurd solid (by decide)

/-! ### The first dash -/

theorem takeWhile_of_dash_notMem {cs : List Char} (h : '-' ∉ cs) :
    cs.takeWhile (· ≠ '-') = cs :=
  List.takeWhile_eq_self_iff.2 fun _ member => decide_eq_true fun same => h (same ▸ member)

theorem afterDash_of_dash_notMem {cs : List Char} (h : '-' ∉ cs) : afterDash cs = none := by
  induction cs with
  | nil => rfl
  | cons c cs ih =>
    have other : c ≠ '-' := (List.ne_of_not_mem_cons h).symm
    rw [afterDash, if_neg other, ih (List.not_mem_of_not_mem_cons h)]

theorem takeWhile_append_dash {left : List Char} (h : '-' ∉ left) (right : List Char) :
    (left ++ '-' :: right).takeWhile (· ≠ '-') = left := by
  have before : ∀ c ∈ left, decide (c ≠ '-') = true := fun c member =>
    decide_eq_true fun same => h (same ▸ member)
  rw [List.takeWhile_append_of_pos before, List.takeWhile_cons_of_neg (by simp), List.append_nil]

theorem afterDash_append {left : List Char} (h : '-' ∉ left) (right : List Char) :
    afterDash (left ++ '-' :: right) = some right := by
  induction left with
  | nil => exact if_pos rfl
  | cons c left ih =>
    have other : c ≠ '-' := (List.ne_of_not_mem_cons h).symm
    rw [List.cons_append, afterDash, if_neg other, ih (List.not_mem_of_not_mem_cons h)]

/-- A text with a dash is divided at the first one. -/
theorem exists_of_afterDash {cs right : List Char} (h : afterDash cs = some right) :
    ∃ left, '-' ∉ left ∧ cs = left ++ '-' :: right := by
  by_cases dash : '-' ∈ cs
  · obtain ⟨left, rest, rfl, first⟩ := List.eq_append_cons_of_mem dash
    rw [afterDash_append first, Option.some.injEq] at h
    exact ⟨left, first, by rw [h]⟩
  · rw [afterDash_of_dash_notMem dash] at h
    exact nomatch h

/-- The parts around the first dash are parts of the text at places between characters. -/
theorem cut?_of_afterDash {cs right : List Char} (h : afterDash cs = some right) :
    Text.cut? (Text.byteLength (cs.takeWhile (· ≠ '-'))) cs =
        some (cs.takeWhile (· ≠ '-'), '-' :: right) ∧
      Text.cut? (Text.byteLength (cs.takeWhile (· ≠ '-')) + 1) cs =
        some (cs.takeWhile (· ≠ '-') ++ ['-'], right) := by
  obtain ⟨left, first, rfl⟩ := exists_of_afterDash h
  rw [takeWhile_append_dash first]
  refine ⟨Text.cut?_byteLength left ('-' :: right), ?_⟩
  have past : Text.byteLength left + 1 = Text.byteLength (left ++ ['-']) := by
    rw [Text.byteLength_append]
    rfl
  rw [past, ← List.append_cons left '-' right |>.symm]
  exact Text.cut?_byteLength (left ++ ['-']) right

/-! ### Whole ranges -/

theorem parse_of_dash_notMem {text : String} (h : '-' ∉ text.toList) :
    parse text = ofSides text text.toList none := by
  rw [parse, takeWhile_of_dash_notMem h, afterDash_of_dash_notMem h]

theorem parse_of_dash {text : String} {left right : List Char} (first : '-' ∉ left)
    (whole : text.toList = left ++ '-' :: right) :
    parse text = ofSides text left (some right) := by
  rw [parse, whole, takeWhile_append_dash first, afterDash_append first]

theorem ofSides_none_eq_ok_iff {text : String} {cs : List Char} {r : Request} :
    ofSides text cs none = .ok r ↔ ∃ n, IsEnd cs n ∧ r = ⟨n, some n⟩ := by
  rw [ofSides]
  split
  · next n read =>
    rw [readSize_eq_some_iff] at read
    rw [Except.ok.injEq]
    constructor
    · rintro rfl
      exact ⟨n, read, rfl⟩
    · rintro ⟨m, other, rfl⟩
      rw [read.unique other]
  · next unread =>
    rw [readSize_eq_none_iff] at unread
    exact ⟨nofun, fun ⟨n, read, _⟩ => absurd read (unread n)⟩

/-- After the first size come blanks, or a second size that is not below it. -/
theorem ofSides_some_eq_ok_iff {text : String} {left right : List Char} {r : Request} :
    ofSides text left (some right) = .ok r ↔
      ∃ first, IsEnd left first ∧
        (Text.AreBlanks right ∧ r = ⟨first, none⟩ ∨
          ∃ last, IsEnd right last ∧ first ≤ last ∧ r = ⟨first, some last⟩) := by
  rw [ofSides]
  cases low : readSize left with
  | none =>
    rw [readSize_eq_none_iff] at low
    exact ⟨nofun, fun ⟨first, read, _⟩ => absurd read (low first)⟩
  | some first =>
    rw [readSize_eq_some_iff] at low
    have only : ∀ n, IsEnd left n → n = first := fun n other => other.unique low
    dsimp only
    split_ifs with empty <;> rw [List.isEmpty_iff, Text.trimBlanks_eq_nil_iff] at empty
    · rw [Except.ok.injEq]
      constructor
      · rintro rfl
        exact ⟨first, low, .inl ⟨empty, rfl⟩⟩
      · rintro ⟨n, read, ⟨-, rfl⟩ | ⟨last, other, -, -⟩⟩
        · rw [only n read]
        · exact absurd empty other.not_areBlanks
    · cases high : readSize right with
      | none =>
        rw [readSize_eq_none_iff] at high
        refine ⟨nofun, ?_⟩
        rintro ⟨n, -, ⟨other, -⟩ | ⟨last, read, -, -⟩⟩
        · exact absurd other empty
        · exact absurd read (high last)
      | some last =>
        rw [readSize_eq_some_iff] at high
        dsimp only
        constructor
        · intro accepted
          split_ifs at accepted with reversed
          exact ⟨first, low, .inr ⟨last, high, not_lt.1 reversed, (Except.ok.inj accepted).symm⟩⟩
        · rintro ⟨n, read, ⟨other, -⟩ | ⟨m, second, ordered, rfl⟩⟩
          · exact absurd other empty
          · obtain rfl := only n read
            obtain rfl := second.unique high
            rw [if_neg (not_lt.2 ordered)]

theorem isRange_iff_of_dash_notMem {cs : List Char} {r : Request} (h : '-' ∉ cs) :
    IsRange cs r ↔ ∃ n, IsEnd cs n ∧ r = ⟨n, some n⟩ := by
  constructor
  · rintro (read | _ | _)
    · exact ⟨_, read, rfl⟩
    all_goals exact absurd (List.mem_append_right _ List.mem_cons_self) h
  · rintro ⟨n, read, rfl⟩
    exact .single read

/-- Two ways to divide a text at a dash that has no dash before it are the same. -/
theorem append_dash_inj {left left' right right' : List Char} (first : '-' ∉ left)
    (first' : '-' ∉ left') (same : left ++ '-' :: right = left' ++ '-' :: right') :
    left = left' ∧ right = right' := by
  constructor
  · rw [← takeWhile_append_dash first right, same, takeWhile_append_dash first']
  · rw [← Option.some.injEq, ← afterDash_append first right, same, afterDash_append first']

theorem isRange_append_iff {left right : List Char} {r : Request} (first : '-' ∉ left) :
    IsRange (left ++ '-' :: right) r ↔
      ∃ low, IsEnd left low ∧
        (Text.AreBlanks right ∧ r = ⟨low, none⟩ ∨
          ∃ high, IsEnd right high ∧ low ≤ high ∧ r = ⟨low, some high⟩) := by
  constructor
  · generalize whole : left ++ '-' :: right = cs
    rintro (read | ⟨read, blanks⟩ | ⟨read, second, ordered⟩)
    · exact absurd (whole ▸ List.mem_append_right _ List.mem_cons_self) read.dash_notMem
    · obtain ⟨rfl, rfl⟩ := append_dash_inj first read.dash_notMem whole
      exact ⟨_, read, .inl ⟨blanks, rfl⟩⟩
    · obtain ⟨rfl, rfl⟩ := append_dash_inj first read.dash_notMem whole
      exact ⟨_, read, .inr ⟨_, second, ordered, rfl⟩⟩
  · rintro ⟨low, read, ⟨blanks, rfl⟩ | ⟨high, second, ordered, rfl⟩⟩
    · exact .endless read blanks
    · exact .bounded read second ordered

theorem parse_eq_ok_iff {text : String} {r : Request} :
    parse text = .ok r ↔ IsRange text.toList r := by
  by_cases dash : '-' ∈ text.toList
  · obtain ⟨left, right, whole, first⟩ := List.eq_append_cons_of_mem dash
    rw [parse_of_dash first whole, ofSides_some_eq_ok_iff, whole, isRange_append_iff first]
  · rw [parse_of_dash_notMem dash, ofSides_none_eq_ok_iff, isRange_iff_of_dash_notMem dash]

/-- Whatever is wrong with a range, the code is the same. -/
theorem code_of_parse {text : String} {fault : Fault} (h : parse text = .error fault) :
    fault.code = "E0002" := by
  rw [parse, ofSides.eq_def] at h
  repeat' split at h
  all_goals cases h
  all_goals rfl

/-! ### Ranges as they are written -/

theorem isEnd_toDigits {n : Nat} (small : n < sizeLimit) : IsEnd (Nat.toDigits 10 n) n :=
  ⟨[], Nat.toDigits 10 n, [], nofun, nofun, (List.append_nil _).symm,
    .plain (Text.isNumeral_toDigits n), small⟩

theorem isRange_text {s : Span} (ordered : s.first ≤ s.last) (small : s.last < sizeLimit) :
    IsRange s.text.toList ⟨s.first, some s.last⟩ := by
  have low := isEnd_toDigits (lt_of_le_of_lt ordered small)
  rw [Span.text]
  split_ifs with alone
  · rw [Text.toList_decimal, ← eq_of_beq alone]
    exact .single low
  · rw [String.toList_append, String.toList_append, Text.toList_decimal, Text.toList_decimal,
      List.append_assoc]
    exact .bounded low (isEnd_toDigits small) ordered

/-- A text is read as a range exactly when it is one, with the bounds that it gives, and every other
text is refused with the code of ranges; where a text is divided, both parts can be cut out of it.
A span is read back from its own text. -/
theorem parse_accepts_ranges :
    (∀ text : String,
      (∀ r, parse text = .ok r ↔ IsRange text.toList r) ∧
      ((∀ r, ¬IsRange text.toList r) → ∃ fault, parse text = .error fault ∧ fault.code = "E0002") ∧
      ∀ right, afterDash text.toList = some right →
        Text.cut? (Text.byteLength (text.toList.takeWhile (· ≠ '-'))) text.toList =
            some (text.toList.takeWhile (· ≠ '-'), '-' :: right) ∧
          Text.cut? (Text.byteLength (text.toList.takeWhile (· ≠ '-')) + 1) text.toList =
            some (text.toList.takeWhile (· ≠ '-') ++ ['-'], right)) ∧
      ∀ s : Span, s.first ≤ s.last → s.last < sizeLimit →
        parse s.text = .ok ⟨s.first, some s.last⟩ := by
  refine ⟨fun text => ⟨fun r => parse_eq_ok_iff, fun none => ?_, fun right => cut?_of_afterDash⟩,
    fun s ordered small => parse_eq_ok_iff.2 (isRange_text ordered small)⟩
  cases outcome : parse text with
  | ok r => exact absurd (parse_eq_ok_iff.1 outcome) (none r)
  | error fault => exact ⟨fault, rfl, code_of_parse outcome⟩

theorem parse_accepts_ranges_of_blanks :
    parse "\u2003+007\t-\u300042" = .ok ⟨7, some 42⟩ ∧
      parse (Span.text ⟨7, 42⟩) = .ok ⟨7, some 42⟩ := by
  have low : IsEnd ['\u2003', '+', '0', '0', '7', '\t'] 7 :=
    ⟨['\u2003'], ['+', '0', '0', '7'], ['\t'], by decide, by decide, rfl,
      .plus (by decide), by decide⟩
  have high : IsEnd ['\u3000', '4', '2'] 42 :=
    ⟨['\u3000'], ['4', '2'], [], by decide, by decide, rfl, .plain (by decide), by decide⟩
  exact ⟨((parse_accepts_ranges.1 _).1 _).2 (.bounded low high (by decide)),
    parse_accepts_ranges.2 ⟨7, 42⟩ (by decide) (by decide)⟩

end Request

end EnumMacros
