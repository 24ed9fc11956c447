import EnumMacros.Proofs.Definition.Counting
import EnumMacros.Proofs.Definition.Reading
import EnumMacros.Proofs.Text.Decoding

/-! Definitions as they are printed. The marks of a body and the literals of its messages are
printable characters of ASCII, whatever the message says, and so are all names in an accepted style.
A definition is therefore one line, which takes up a byte for each character, and its size is the
number of these bytes: `lines_print_as_measured`. -/

namespace EnumMacros

open Identifier (IsWord isWordChar symbolOf)
open Preprocessor
open Text.CLiteral (IsGraphic)

/-! ### Printable texts -/

/-- All characters of the text are printable ones of ASCII. -/
def IsPrintable (text : String) : Prop := ∀ c ∈ text.toList, IsGraphic c

instance (text : String) : Decidable (IsPrintable text) :=
  List.decidableBAll IsGraphic text.toList

theorem IsPrintable.append {s t : String} (h : IsPrintable s) (h' : IsPrintable t) :
    IsPrintable (s ++ t) := by
  rw [IsPrintable, String.toList_append]
  exact List.forall_mem_append.2 ⟨h, h'⟩

theorem isPrintable_join {texts : List String} (h : ∀ t ∈ texts, IsPrintable t) :
    IsPrintable (String.join texts) := by
  intro c member
  rw [String.toList_join] at member
  obtain ⟨t, inside, char⟩ := List.mem_flatMap.1 member
  exact h t inside c char

theorem isPrintable_intercalate {between : String} (joint : IsPrintable between)
    {texts : List String} (h : ∀ t ∈ texts, IsPrintable t) :
    IsPrintable (String.intercalate between texts) := by
  intro c member
  rw [String.toList_intercalate] at member
  rcases mem_intercalate member with char | ⟨chars, inside, char⟩
  · exact joint c char
  · obtain ⟨t, among, rfl⟩ := List.mem_map.1 inside
    exact h t among c char

theorem isGraphic_of_isWordChar {c : Char} (h : isWordChar c = true) : IsGraphic c := by
  have symbols : ∀ d < Identifier.base, IsGraphic (symbolOf d) := by decide +kernel
  obtain ⟨d, digit⟩ := Option.isSome_iff_exists.1 h
  obtain ⟨small, rfl⟩ := Identifier.digit?_eq_some_iff.1 digit
  exact symbols d small

theorem isPrintable_of_isWord {name : String} (h : IsWord name) : IsPrintable name :=
  fun c member => isGraphic_of_isWordChar (h.2 c member)

theorem isPrintable_escape (text : String) : IsPrintable (Text.CLiteral.escape text) := by
  rw [IsPrintable, Text.CLiteral.toList_escape]
  exact Text.CLiteral.isGraphic_of_mem_escapeUnits

theorem IsPrintable.isOneLine {text : String} (h : IsPrintable text) : IsOneLine text :=
  fun feed => absurd (h _ feed) (by decide)

/-! ### Bytes -/

/-- The bytes of a text in UTF-8. -/
def utf8Bytes (text : String) : List UInt8 := text.toUTF8.data.toList

theorem length_utf8Bytes (text : String) : (utf8Bytes text).length = text.utf8ByteSize :=
  Array.length_toList

theorem utf8Bytes_append (s t : String) : utf8Bytes (s ++ t) = utf8Bytes s ++ utf8Bytes t := by
  simp only [utf8Bytes, String.toUTF8_eq_toByteArray, String.toByteArray_append,
    ByteArray.data_append, Array.toList_append]

theorem utf8Bytes_eq_flatMap (text : String) :
    utf8Bytes text = text.toList.flatMap String.utf8EncodeChar := by
  rw [utf8Bytes, String.toUTF8_eq_toByteArray, ← String.utf8Encode_toList]
  exact List.toList_data_toByteArray

/-- A printable character is written as its code, in one byte. -/
theorem utf8EncodeChar_of_isGraphic {c : Char} (h : IsGraphic c) :
    String.utf8EncodeChar c = [c.toUInt8] := by
  have ascii : c.utf8Size = 1 :=
    Char.utf8Size_eq_one_iff.2 (show c.toNat ≤ 127 from h.2.trans (by decide))
  rw [String.utf8EncodeChar_eq_singleton ascii, Char.toUInt8_val]

theorem IsPrintable.of_mem_utf8Bytes {text : String} (h : IsPrintable text) :
    ∀ b ∈ utf8Bytes text, 32 ≤ b ∧ b ≤ 126 := by
  intro b member
  rw [utf8Bytes_eq_flatMap] at member
  obtain ⟨c, inside, byte⟩ := List.mem_flatMap.1 member
  have graphic := h c inside
  rw [utf8EncodeChar_of_isGraphic graphic] at byte
  obtain rfl := List.mem_singleton.1 byte
  have code : c.toUInt8.toNat = c.toNat := by
    rw [Char.toUInt8, UInt32.toNat_toUInt8]
    exact Nat.mod_eq_of_lt (graphic.2.trans_lt (by decide))
  rw [UInt8.le_iff_toNat_le, UInt8.le_iff_toNat_le, code]
  exact graphic

/-! ### Tokens -/

/-- What the token adds to the name in it, if it has one, is printable: its mark, or the content of
its literal. -/
def Token.HasPrintableMarks : Token → Prop
  | .mark text => IsPrintable text
  | .message (.literal content) => IsPrintable content
  | .word _ | .message (.quoted _) => True

theorem isPrintable_text {t : Token} (marks : t.HasPrintableMarks) (written : IsWritten t) :
    IsPrintable t.text := by
  match t with
  | .word name => exact isPrintable_of_isWord written
  | .mark text => exact marks
  | .message (.literal content) =>
    have quote : IsPrintable "\x22" := by decide
    exact (quote.append marks).append quote
  | .message (.quoted name) =>
    have sign : IsPrintable "#" := by decide
    exact sign.append (isPrintable_of_isWord written)

/-- What the tokens add to the names in them is printable. -/
def HavePrintableMarks (ts : List Token) : Prop := ∀ t ∈ ts, t.HasPrintableMarks

@[simp] theorem havePrintableMarks_nil : HavePrintableMarks [] := List.forall_mem_nil _

@[simp] theorem havePrintableMarks_word {name : String} {ts : List Token} :
    HavePrintableMarks (.word name :: ts) ↔ HavePrintableMarks ts :=
  List.forall_mem_cons.trans (and_iff_right trivial)

@[simp] theorem havePrintableMarks_mark {text : String} {ts : List Token} :
    HavePrintableMarks (.mark text :: ts) ↔ IsPrintable text ∧ HavePrintableMarks ts :=
  List.forall_mem_cons

@[simp] theorem havePrintableMarks_append {ts us : List Token} :
    HavePrintableMarks (ts ++ us) ↔ HavePrintableMarks ts ∧ HavePrintableMarks us :=
  List.forall_mem_append

theorem havePrintableMarks_separated {between : String} (joint : IsPrintable between)
    {runs : List (List Token)} (h : ∀ run ∈ runs, HavePrintableMarks run) :
    HavePrintableMarks (Token.separated between runs) := by
  intro t member
  rcases mem_separated member with rfl | ⟨run, inside, among⟩
  · exact joint
  · exact h run inside t among

theorem isPrintable_textOf {ts : List Token} (readable : Readable ts)
    (marks : HavePrintableMarks ts) : IsPrintable (Token.textOf ts) := by
  apply isPrintable_join
  intro text member
  obtain ⟨t, inside, rfl⟩ := List.mem_map.1 member
  exact isPrintable_text (marks t inside) (readable.written t inside)

/-! ### Bodies -/

/-- A message is escaped, so all of it is printable but the names that it quotes. -/
theorem havePrintableMarks_message (t : Template) (values : Bindings) :
    HavePrintableMarks ((t.stringTokens values).map .message) := by
  intro token member
  obtain ⟨message, inside, rfl⟩ := List.mem_map.1 member
  have source := comesFrom_of_mem_stringTokens message inside
  match message with
  | .quoted name => trivial
  | .literal content =>
    obtain ⟨texts, rfl⟩ := source
    apply isPrintable_join
    intro escaped among
    obtain ⟨text, -, rfl⟩ := List.mem_map.1 among
    exact isPrintable_escape text

theorem havePrintableMarks_words (names : List String) :
    HavePrintableMarks (Token.separated "," (names.map fun name => [.word name])) := by
  apply havePrintableMarks_separated (by decide)
  intro run member
  obtain ⟨name, -, rfl⟩ := List.mem_map.1 member
  simp

theorem havePrintableMarks_call (c : Call) : HavePrintableMarks c.tokens := by
  have opened : IsPrintable "(" := by decide
  have closed : IsPrintable ")" := by decide
  simp [Call.tokens, opened, closed, havePrintableMarks_words]

section Assertion

variable (a : Assertion)

theorem havePrintableMarks_assertion {condition : List Token} (h : HavePrintableMarks condition)
    (values : Bindings) : HavePrintableMarks (a.tokens condition values) := by
  have opened : IsPrintable "(" := by decide
  have comma : IsPrintable "," := by decide
  have closed : IsPrintable ")" := by decide
  simp [Assertion.tokens, h, opened, comma, closed, havePrintableMarks_message]

theorem havePrintableMarks_pair (x y : String) : HavePrintableMarks (a.pairTokens x y) := by
  have opened : IsPrintable "((" := by decide
  have unequal : IsPrintable ")!=(" := by decide
  have closed : IsPrintable "))" := by decide
  have compared : HavePrintableMarks (Assertion.comparison x y) := by
    simp [Assertion.comparison, opened, unequal, closed]
  rw [Assertion.pairTokens]
  cases a.extent with
  | once => exact compared
  | all => exact havePrintableMarks_assertion a compared _

theorem isPrintable_joint : IsPrintable a.joint := by
  rw [Assertion.joint]
  cases a.extent <;> decide

theorem havePrintableMarks_enumTokens (d : Declaration) : HavePrintableMarks d.enumTokens := by
  have blank : IsPrintable " " := by decide
  have opened : IsPrintable "\x7b" := by decide
  have closed : IsPrintable "\x7d" := by decide
  have enumerators : HavePrintableMarks (Token.separated "," (d.enumerators.map fun e =>
      [.word e.1, .mark " ", .word e.2])) := by
    apply havePrintableMarks_separated (by decide)
    intro run member
    obtain ⟨e, -, rfl⟩ := List.mem_map.1 member
    simp [blank]
  simp [Declaration.enumTokens, blank, opened, closed, enumerators]

theorem havePrintableMarks_checkTokens (d : Declaration) :
    HavePrintableMarks (d.checkTokens a) := by
  have semicolon : IsPrintable ";" := by decide
  rw [Declaration.checkTokens]
  cases d.check with
  | none => exact havePrintableMarks_nil
  | some call =>
    have called := havePrintableMarks_call call
    refine havePrintableMarks_mark.2 ⟨semicolon, ?_⟩
    cases a.extent with
    | once => exact havePrintableMarks_assertion a called _
    | all => exact called

/-- All of a body is printable but the names in it, whatever its assertion says. -/
theorem havePrintableMarks_body (b : Body) : HavePrintableMarks (b.tokens a) := by
  cases b with
  | comparisons names =>
    apply havePrintableMarks_separated (isPrintable_joint a)
    intro run member
    obtain ⟨p, -, rfl⟩ := List.mem_map.1 member
    exact havePrintableMarks_pair a p.1 p.2
  | calls group =>
    apply havePrintableMarks_separated (isPrintable_joint a)
    intro run member
    obtain ⟨call, -, rfl⟩ := List.mem_map.1 member
    exact havePrintableMarks_call call
  | declaration d =>
    exact havePrintableMarks_append.2
      ⟨havePrintableMarks_enumTokens d, havePrintableMarks_checkTokens a d⟩

end Assertion

/-! ### Lines -/

/-- A line of printable names with a printable body is printable up to its line feed. -/
theorem Line.isPrintable_written {l : Line} (name : IsPrintable l.name)
    (params : ∀ p ∈ l.params, IsPrintable p) (body : IsPrintable l.body) :
    IsPrintable l.written := by
  have listed : IsPrintable (String.intercalate "," l.params) :=
    isPrintable_intercalate (by decide) params
  have opened : IsPrintable ("#define " ++ l.name ++ "(") :=
    ((show IsPrintable "#define " by decide).append name).append (by decide)
  exact ((opened.append listed).append (by decide)).append body

namespace Style

variable {style : Style} {family : Family} {n : Nat} {line : Line}

theorem Prints.isPrintable (h : style.Prints family n line) (small : n < sizeLimit)
    (accepted : style.IsAccepted) : IsPrintable line.written := by
  have words := h.isWord_params small
  obtain ⟨d, rfl, name, readable, -⟩ := h.exists_definition small accepted
  apply Line.isPrintable_written
  · show IsPrintable d.name
    rw [name]
    exact isPrintable_of_isWord (accepted.isWord_macroName family n)
  · exact fun p member => isPrintable_of_isWord (words p member)
  · exact isPrintable_textOf readable (havePrintableMarks_body style.assertion d.body)

/-- A definition is written on one line. -/
theorem Prints.isOneLine (h : style.Prints family n line) (small : n < sizeLimit)
    (accepted : style.IsAccepted) : IsOneLine line.written :=
  (h.isPrintable small accepted).isOneLine

/-- The size of a line is counted from its parts, and it is the number of bytes that the line is
written in, for any name, parameters and body. What is printed for a macro is one line, whatever the
message of its assertion says: printable characters of ASCII up to the last byte, which is a line
feed. -/
theorem lines_print_as_measured (style : Style) (accepted : style.IsAccepted) (family : Family)
    {n : Nat} (small : n < sizeLimit) :
    (∀ l : Line, l.size = (utf8Bytes l.text).length) ∧
    ∀ line, style.Prints family n line →
      ∃ content, utf8Bytes line.text = content ++ [10] ∧ ∀ b ∈ content, 32 ≤ b ∧ b ≤ 126 := by
  refine ⟨fun l => ?_, fun line prints => ?_⟩
  · rw [length_utf8Bytes, l.utf8ByteSize_text]
  · have printable := prints.isPrintable small accepted
    have feed : utf8Bytes "\n" = [10] := by decide
    refine ⟨utf8Bytes line.written, ?_, printable.of_mem_utf8Bytes⟩
    rw [line.text_eq, utf8Bytes_append, feed]

/-- The message starts with a line feed and a character outside ASCII. -/
theorem lines_print_as_measured_of_symbols :
    let style : Style :=
      { standard with
        assertion := ⟨.once, "\n\u20ac \x7btype\x7d", [.literal "\n\u20ac ", .reference "type"]⟩ }
    let line : Line := ⟨"uniqenum2", ["f", "a", "c", "b", "d", "g"],
      "enum f\x7ba c,b d\x7dg;_Static_assert(areuniq2(a,b),\"\x5cn\x5cx20ac \"#g)"⟩
    (style.IsAccepted ∧ 2 < sizeLimit ∧ style.Prints .enum 2 line) ∧
      line.size = (utf8Bytes line.text).length ∧
      ∃ content, utf8Bytes line.text = content ++ [10] ∧ ∀ b ∈ content, 32 ≤ b ∧ b ≤ 126 := by
  intro style line
  have accepted : style.IsAccepted :=
    ⟨_, _, .once, some "\n\u20ac \x7btype\x7d", _, _, false, named_default, rfl, rfl⟩
  have prints : style.Prints .enum 2 line := ⟨_, .start, by decide +kernel⟩
  obtain ⟨measured, printed⟩ := lines_print_as_measured style accepted .enum (n := 2) (by decide)
  exact ⟨⟨accepted, by decide, prints⟩, measured line, printed line prints⟩

end Style

end EnumMacros
