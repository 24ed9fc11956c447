import EnumMacros.Definition.Basic
import EnumMacros.Proofs.Identifier.Scoping
import EnumMacros.Proofs.Text.Reading
import Mathlib.Data.List.Chain

/-! The symbols of a macro body, as a preprocessor reads them from the text of a definition: words,
string literals, and other characters one by one. The text of a run of tokens is read back as the
symbols of the tokens, provided that no word is written right after another token that is no mark,
and that every literal ends where its token ends. -/

namespace EnumMacros.Preprocessor

open Identifier (IsWord isWordChar)

/-- A symbol of a macro body or of what it expands to: a word, a string literal with what stands
between its quotes, any other character but a blank, what the outermost call has as the argument at
some place, or the text of an argument in quotes. -/
inductive Symbol
  | word (name : String)
  | literal (content : String)
  | mark (c : Char)
  | argument (place : Nat)
  | quotation (quoted : List Symbol)

/-! ### Reading symbols -/

/-- Where a reader stands: between symbols, inside a word, inside a literal, or there right after a
backslash. The characters of the symbol read so far are kept with the last one first. -/
inductive Cursor
  | between
  | word (read : List Char)
  | literal (read : List Char)
  | escaped (read : List Char)

namespace Cursor

/-- Reads a character outside words and literals. -/
def start (c : Char) : List Symbol × Cursor :=
  if isWordChar c then ([], word [c])
  else if c = '\x22' then ([], literal [])
  else if c.isWhitespace then ([], between)
  else ([.mark c], between)

/-- Reads a character: the symbols that it completes, and where the reader stands after it. -/
def next : Cursor → Char → List Symbol × Cursor
  | between, c => start c
  | word read, c =>
    if isWordChar c then ([], word (c :: read))
    else (.word (String.ofList read.reverse) :: (start c).1, (start c).2)
  | literal read, c =>
    if c = '\x22' then ([.literal (String.ofList read.reverse)], between)
    else if c = '\x5c' then ([], escaped (c :: read))
    else ([], literal (c :: read))
  | escaped read, c => ([], literal (c :: read))

/-- The symbol that the end of the text completes. -/
def finish : Cursor → List Symbol
  | between => []
  | word read => [.word (String.ofList read.reverse)]
  | literal read | escaped read => [.literal (String.ofList read.reverse)]

end Cursor

/-- The symbols of the rest of a text. -/
def symbolsFrom : Cursor → List Char → List Symbol
  | cursor, [] => cursor.finish
  | cursor, c :: cs => (cursor.next c).1 ++ symbolsFrom (cursor.next c).2 cs

/-- The symbols of a text. -/
def symbols (text : String) : List Symbol := symbolsFrom .between text.toList

theorem symbolsFrom_cons (cursor : Cursor) (c : Char) (cs : List Char) :
    symbolsFrom cursor (c :: cs) = (cursor.next c).1 ++ symbolsFrom (cursor.next c).2 cs := rfl

/-! ### Words and marks -/

/-- The text does not go on with a word character. -/
def EndsWord (rest : List Char) : Prop := ∀ c ∈ rest.head?, isWordChar c = false

theorem symbolsFrom_word_ends (read : List Char) {rest : List Char} (h : EndsWord rest) :
    symbolsFrom (.word read) rest =
      .word (String.ofList read.reverse) :: symbolsFrom .between rest := by
  cases rest with
  | nil => rfl
  | cons c cs =>
    have other : isWordChar c = false := h c rfl
    have completed : Cursor.next (.word read) c =
        (.word (String.ofList read.reverse) :: (Cursor.start c).1, (Cursor.start c).2) := by
      rw [Cursor.next, other]
      rfl
    rw [symbolsFrom_cons, symbolsFrom_cons, completed]
    rfl

theorem symbolsFrom_word_append {cs rest : List Char} (h : ∀ c ∈ cs, isWordChar c = true)
    (ends : EndsWord rest) (read : List Char) :
    symbolsFrom (.word read) (cs ++ rest) =
      .word (String.ofList (read.reverse ++ cs)) :: symbolsFrom .between rest := by
  induction cs generalizing read with
  | nil => rw [List.nil_append, List.append_nil, symbolsFrom_word_ends read ends]
  | cons c cs ih =>
    obtain ⟨first, others⟩ := List.forall_mem_cons.1 h
    rw [List.cons_append, symbolsFrom_cons, Cursor.next, if_pos first, List.nil_append,
      ih others (c :: read), List.reverse_cons, List.append_assoc]
    rfl

/-- A word is read up to its end. -/
theorem symbolsFrom_word {name : String} (h : IsWord name) {rest : List Char}
    (ends : EndsWord rest) :
    symbolsFrom .between (name.toList ++ rest) = .word name :: symbolsFrom .between rest := by
  obtain ⟨c, cs, spelled⟩ := List.exists_cons_of_ne_nil h.1
  have chars := h.2
  rw [spelled, List.forall_mem_cons] at chars
  rw [spelled, List.cons_append, symbolsFrom_cons, Cursor.next, Cursor.start, if_pos chars.1,
    List.nil_append, symbolsFrom_word_append chars.2 ends, List.reverse_singleton,
    List.singleton_append, ← spelled, String.ofList_toList]

/-- A character that is a symbol by itself, or a blank, on the same line. -/
def IsPlain (c : Char) : Prop := isWordChar c = false ∧ c ≠ '\x22' ∧ c ≠ '\n'

instance (c : Char) : Decidable (IsPlain c) := inferInstanceAs (Decidable (_ ∧ _))

/-- The symbols of plain characters. -/
def marks (cs : List Char) : List Symbol := (cs.filter fun c => !c.isWhitespace).map .mark

theorem symbolsFrom_marks {cs : List Char} (h : ∀ c ∈ cs, IsPlain c) (rest : List Char) :
    symbolsFrom .between (cs ++ rest) = marks cs ++ symbolsFrom .between rest := by
  induction cs with
  | nil => rfl
  | cons c cs ih =>
    obtain ⟨⟨notWord, notQuote, -⟩, others⟩ := List.forall_mem_cons.1 h
    rw [List.cons_append, symbolsFrom_cons, Cursor.next, Cursor.start, notWord, if_neg notQuote,
      marks, List.filter_cons]
    by_cases blank : c.isWhitespace
    · simp [blank, ih others, marks]
    · simp [blank, ih others, marks]

/-! ### Literals -/

/-- A reader inside a literal is still there after these characters, on the same line. -/
structure StaysLiteral (cs : List Char) : Prop where
  line : '\n' ∉ cs
  reads : ∀ read rest, symbolsFrom (.literal read) (cs ++ rest) =
    symbolsFrom (.literal (cs.reverse ++ read)) rest

theorem StaysLiteral.append {cs ds : List Char} (h : StaysLiteral cs) (h' : StaysLiteral ds) :
    StaysLiteral (cs ++ ds) := by
  refine ⟨fun member => ?_, fun read rest => ?_⟩
  · rcases List.mem_append.1 member with left | right
    · exact h.line left
    · exact h'.line right
  · rw [List.append_assoc, h.reads, h'.reads, List.reverse_append, List.append_assoc]

theorem staysLiteral_nil : StaysLiteral [] := ⟨List.not_mem_nil, fun _ _ => rfl⟩

theorem staysLiteral_escape {c : Char} (line : c ≠ '\n') : StaysLiteral ['\x5c', c] :=
  ⟨by simp [line.symm], fun _ _ => rfl⟩

/-- A character that a literal can hold as it is. -/
def IsInert (c : Char) : Prop := c ≠ '\x22' ∧ c ≠ '\x5c' ∧ c ≠ '\n'

instance (c : Char) : Decidable (IsInert c) := inferInstanceAs (Decidable (_ ∧ _))

theorem staysLiteral_of_forall {cs : List Char} (h : ∀ c ∈ cs, IsInert c) : StaysLiteral cs := by
  induction cs with
  | nil => exact staysLiteral_nil
  | cons c cs ih =>
    obtain ⟨⟨notQuote, notBackslash, notFeed⟩, others⟩ := List.forall_mem_cons.1 h
    refine ⟨List.not_mem_cons_of_ne_of_not_mem notFeed.symm (ih others).line, fun read rest => ?_⟩
    rw [List.cons_append, symbolsFrom_cons, Cursor.next, if_neg notQuote, if_neg notBackslash,
      List.nil_append, (ih others).reads, List.reverse_cons, List.append_assoc]
    rfl

/-- A literal is read up to the quote that ends it. -/
theorem symbolsFrom_literal {content : String} (h : StaysLiteral content.toList)
    (rest : List Char) :
    symbolsFrom .between ('\x22' :: (content.toList ++ '\x22' :: rest)) =
      .literal content :: symbolsFrom .between rest := by
  have opened : Cursor.next .between '\x22' = ([], .literal []) := rfl
  rw [symbolsFrom_cons, opened, List.nil_append, h.reads, symbolsFrom_cons, Cursor.next, if_pos rfl,
    List.append_nil, List.reverse_reverse, String.ofList_toList]
  rfl

theorem isInert_of_areDigits {base : Nat} {ds : List Char} (h : Text.CLiteral.AreDigits base ds) :
    ∀ c ∈ ds, IsInert c := by
  intro c member
  have range := Text.CLiteral.toNat_of_isSome_digitIn? (h c member)
  refine ⟨?_, ?_, ?_⟩ <;> rintro rfl <;> exact absurd range (by decide)

theorem isInert_of_printable : ∀ unit < 127, Text.CLiteral.named? unit = none → 32 ≤ unit →
    IsInert (Char.ofNat unit) := by
  decide

/-- After its backslash an escape of digits goes on with the first of them. -/
theorem staysLiteral_digits {digits : List Char} (nonempty : digits ≠ [])
    (h : ∀ c ∈ digits, IsInert c) : StaysLiteral ('\x5c' :: digits) := by
  obtain ⟨d, ds, rfl⟩ := List.exists_cons_of_ne_nil nonempty
  rw [List.forall_mem_cons] at h
  exact (staysLiteral_escape h.1.2.2).append (staysLiteral_of_forall h.2)

theorem named?_ne_feed (unit : Nat) : Text.CLiteral.named? unit ≠ some '\n' := by
  unfold Text.CLiteral.named?
  split <;> decide

theorem staysLiteral_escapeUnit (unit : Nat) (next : Option Nat) :
    StaysLiteral (Text.CLiteral.escapeUnit unit next) := by
  have form := Text.CLiteral.isEscape_escapeUnit unit next
  generalize Text.CLiteral.escapeUnit unit next = escaped at form ⊢
  cases form with
  | named named =>
    apply staysLiteral_escape
    rintro rfl
    exact named?_ne_feed unit named
  | printable unnamed range =>
    apply staysLiteral_of_forall
    intro c member
    rw [List.mem_singleton.1 member]
    exact isInert_of_printable unit (by omega) unnamed range.1
  | octal writes => exact staysLiteral_digits writes.nonempty (isInert_of_areDigits writes.digits)
  | universal writes | hexadecimal writes =>
    exact (staysLiteral_escape (by decide)).append
      (staysLiteral_of_forall (isInert_of_areDigits writes.digits))

theorem staysLiteral_escapeUnits (units : List Nat) :
    StaysLiteral (Text.CLiteral.escapeUnits units) := by
  induction units with
  | nil => exact staysLiteral_nil
  | cons unit rest ih => exact (staysLiteral_escapeUnit unit rest.head?).append ih

end EnumMacros.Preprocessor
