import EnumMacros.Identifier.Alphabet
import EnumMacros.Proofs.Identifier.Scoping
import EnumMacros.Text.CLiteral

/-! String expressions read back by the rules of C. An expression is a sequence of literals and of
names to quote, and reading it gives the UTF-16 units of the literals and the names in order. Units
that are written as one run are read back as they were; but an escape at the end of a run takes on
what follows in the literal, where that starts with a digit that the escape has room for. -/

namespace EnumMacros.Text.CLiteral

open Identifier (IsWord isWordChar)

/-- What a string expression stands for, piece by piece: a UTF-16 unit, or the text of an argument
in quotes. -/
inductive Symbol
  | unit (value : Nat)
  | quoted (name : String)
  deriving Repr, DecidableEq

/-! ### Reading expressions -/

/-- The value of a digit, in bases up to 16. -/
def digitValue? (c : Char) : Option Nat :=
  if '0' ≤ c ∧ c ≤ '9' then some (c.toNat - 48)
  else if 'A' ≤ c ∧ c ≤ 'F' then some (c.toNat - 55)
  else if 'a' ≤ c ∧ c ≤ 'f' then some (c.toNat - 87)
  else none

def digitIn? (base : Nat) (c : Char) : Option Nat := (digitValue? c).filter (· < base)

/-- The unit of an escape of one character. -/
def simple? : Char → Option Nat
  | 'a' => some 7
  | 'b' => some 8
  | 't' => some 9
  | 'n' => some 10
  | 'v' => some 11
  | 'f' => some 12
  | 'r' => some 13
  | '\x22' => some 34
  | '\x27' => some 39
  | '?' => some 63
  | '\x5c' => some 92
  | _ => none

/-- Where a reader stands. -/
inductive Cursor
  | between
  /-- After `#` and the start of a name, given with the last character first. -/
  | name (read : List Char)
  | literal
  /-- Right after a backslash. -/
  | escape
  /-- Right after `\x`. -/
  | hexadecimal
  /-- In an escape that takes on digits as long as there is room for them, if that is bounded. -/
  | digits (base value : Nat) (room : Option Nat)
  /-- After `\u`, in an escape that takes one more digit and then as many as are missing. -/
  | universal (value missing : Nat)

namespace Cursor

/-- Reads a character between tokens. -/
def start (c : Char) : Option (List Symbol × Cursor) :=
  if c = '\x22' then some ([], literal)
  else if c = '#' then some ([], name [])
  else none

/-- Reads a character of a literal outside escapes. -/
def inLiteral (c : Char) : Option (List Symbol × Cursor) :=
  if c = '\x22' then some ([], between)
  else if c = '\x5c' then some ([], escape)
  else if c = '\n' then none
  else some ((charUnits c).map .unit, literal)

/-- Reads the character after a backslash. -/
def inEscape (c : Char) : Option (List Symbol × Cursor) :=
  if c = 'x' then some ([], hexadecimal)
  else if c = 'u' then some ([], universal 0 3)
  else
    match simple? c with
    | some unit => some ([.unit unit], literal)
    | none => (digitIn? 8 c).map fun d => ([], digits 8 d (some 2))

/-- The digit that an escape takes on, if it has room. -/
def taken? (base : Nat) (room : Option Nat) (c : Char) : Option Nat :=
  if room = some 0 then none else digitIn? base c

/-- Reads a character: the symbols that it completes, and where the reader stands after it; none
where the text is no string expression. -/
def next : Cursor → Char → Option (List Symbol × Cursor)
  | between, c => start c
  | name read, c =>
    if isWordChar c then some ([], name (c :: read))
    else if read.isEmpty then none
    else (start c).map fun (symbols, after) =>
      (.quoted (String.ofList read.reverse) :: symbols, after)
  | literal, c => inLiteral c
  | escape, c => inEscape c
  | hexadecimal, c => (digitIn? 16 c).map fun d => ([], digits 16 d none)
  | digits base value room, c =>
    match taken? base room c with
    | some d => some ([], digits base (base * value + d) (room.map (· - 1)))
    | none => (inLiteral c).map fun (symbols, after) => (.unit value :: symbols, after)
  | universal value 0, c => (digitIn? 16 c).map fun d => ([.unit (16 * value + d)], literal)
  | universal value (missing + 1), c =>
    (digitIn? 16 c).map fun d => ([], universal (16 * value + d) missing)

/-- The symbols that the end of the text completes; a literal has to be closed by then. -/
def finish : Cursor → Option (List Symbol)
  | between => some []
  | name read => if read.isEmpty then none else some [.quoted (String.ofList read.reverse)]
  | _ => none

end Cursor

/-- The symbols of the rest of a string expression. -/
def readFrom : Cursor → List Char → Option (List Symbol)
  | cursor, [] => cursor.finish
  | cursor, c :: cs =>
    (cursor.next c).bind fun (symbols, after) => (readFrom after cs).map (symbols ++ ·)

/-- The symbols of a string expression; none for any other text. -/
def read (text : String) : Option (List Symbol) := readFrom .between text.toList

theorem readFrom_cons (cursor : Cursor) (c : Char) (cs : List Char) :
    readFrom cursor (c :: cs) =
      (cursor.next c).bind fun (symbols, after) => (readFrom after cs).map (symbols ++ ·) := rfl

theorem readFrom_of_next {cursor after : Cursor} {c : Char} {symbols : List Symbol}
    (h : cursor.next c = some (symbols, after)) (cs : List Char) :
    readFrom cursor (c :: cs) = (readFrom after cs).map (symbols ++ ·) := by
  rw [readFrom_cons, h, Option.bind_some]

/-- A character that completes nothing only moves the reader. -/
theorem readFrom_of_silent {cursor after : Cursor} {c : Char}
    (h : cursor.next c = some ([], after)) (cs : List Char) :
    readFrom cursor (c :: cs) = readFrom after cs := by
  rw [readFrom_of_next h]
  exact Option.map_id'

theorem inLiteral_of_plain {c : Char} (small : c.toNat < 0x10000) (quote : c ≠ '\x22')
    (backslash : c ≠ '\x5c') (feed : c ≠ '\n') :
    Cursor.inLiteral c = some ([.unit c.toNat], .literal) := by
  rw [Cursor.inLiteral, if_neg quote, if_neg backslash, if_neg feed, charUnits, if_pos small]
  rfl

/-! ### Digits -/

theorem le_iff_toNat_le {c d : Char} : c ≤ d ↔ c.toNat ≤ d.toNat := Char.le_def

/-- The codes of the digits. -/
theorem digitValue?_eq (c : Char) :
    digitValue? c =
      if 48 ≤ c.toNat ∧ c.toNat ≤ 57 then some (c.toNat - 48)
      else if 65 ≤ c.toNat ∧ c.toNat ≤ 70 then some (c.toNat - 55)
      else if 97 ≤ c.toNat ∧ c.toNat ≤ 102 then some (c.toNat - 87)
      else none := by
  simp only [digitValue?, le_iff_toNat_le]
  rfl

theorem isSome_digitIn?_eight (c : Char) : (digitIn? 8 c).isSome = isOctalDigit c.toNat := by
  rw [digitIn?, digitValue?_eq, isOctalDigit, Bool.eq_iff_iff]
  split_ifs <;> simp <;> omega

theorem isSome_digitIn?_sixteen (c : Char) : (digitIn? 16 c).isSome = isHexDigit c.toNat := by
  rw [digitIn?, digitValue?_eq, isHexDigit, Bool.eq_iff_iff]
  split_ifs <;> simp <;> omega

theorem digitIn?_eq_some {base : Nat} {c : Char} (h : (digitIn? base c).isSome = true) :
    digitIn? base c = some ((digitValue? c).getD 0) := by
  rw [digitIn?] at h ⊢
  cases value : digitValue? c with
  | none => rw [value] at h; exact absurd h (by simp)
  | some d =>
    rw [value] at h
    simp only [Option.isSome_filter, Option.any_some, decide_eq_true_eq] at h
    simp [h]

theorem toNat_of_isSome_digitIn? {base : Nat} {c : Char} (h : (digitIn? base c).isSome = true) :
    48 ≤ c.toNat ∧ c.toNat ≤ 102 ∧ c.toNat ≠ 92 := by
  by_contra outside
  rw [digitIn?, digitValue?_eq, if_neg (by omega), if_neg (by omega), if_neg (by omega)] at h
  exact absurd h (by simp)

theorem inLiteral_of_digit {base : Nat} {c : Char} (h : (digitIn? base c).isSome = true) :
    Cursor.inLiteral c = some ([.unit c.toNat], .literal) := by
  have range := toNat_of_isSome_digitIn? h
  refine inLiteral_of_plain (by omega) ?_ ?_ ?_ <;> rintro rfl <;> exact absurd range (by decide)

/-- All of the characters are digits. -/
def AreDigits (base : Nat) (ds : List Char) : Prop := ∀ c ∈ ds, (digitIn? base c).isSome = true

/-- The number that digits write when they go on from another number. -/
def valueFrom (base value : Nat) (ds : List Char) : Nat :=
  ds.foldl (fun v c => base * v + (digitValue? c).getD 0) value

theorem digitValue?_digitChar : ∀ d < 16, digitValue? (Nat.digitChar d) = some d := by decide

theorem isSome_digitIn?_digitChar {base d : Nat} (small : d < base) (bounded : base ≤ 16) :
    (digitIn? base (Nat.digitChar d)).isSome = true := by
  rw [digitIn?, digitValue?_digitChar d (by omega)]
  simp [small]

section Base

variable {base : Nat} (large : 1 < base) (bounded : base ≤ 16)

include large bounded

theorem areDigits_toDigits (n : Nat) : AreDigits base (Nat.toDigits base n) := by
  induction n using Nat.strongRecOn with
  | ind n ih =>
    rw [Nat.toDigits_eq_if large]
    split_ifs with small
    · exact List.forall_mem_singleton.2 (isSome_digitIn?_digitChar small bounded)
    · have last : n % base < base := Nat.mod_lt n (by omega)
      exact List.forall_mem_append.2 ⟨ih (n / base) (Nat.div_lt_self (by omega) large),
        List.forall_mem_singleton.2 (isSome_digitIn?_digitChar last bounded)⟩

theorem valueFrom_toDigits (n : Nat) : valueFrom base 0 (Nat.toDigits base n) = n := by
  induction n using Nat.strongRecOn with
  | ind n ih =>
    rw [Nat.toDigits_eq_if large]
    split_ifs with small
    · rw [valueFrom, List.foldl_cons, digitValue?_digitChar n (by omega)]
      exact Nat.zero_add n
    · have last : n % base < base := Nat.mod_lt n (by omega)
      have before : valueFrom base 0 (Nat.toDigits base (n / base)) = n / base :=
        ih (n / base) (Nat.div_lt_self (by omega) large)
      rw [valueFrom] at before ⊢
      rw [List.foldl_append, before, List.foldl_cons, digitValue?_digitChar _ (by omega)]
      exact Nat.div_add_mod n base

end Base

/-- Zeros on the left change neither that these are digits nor what they write. -/
theorem areDigits_padded {base : Nat} (positive : 0 < base) {ds : List Char}
    (h : AreDigits base ds) (width : Nat) : AreDigits base (padded width ds) := by
  have zero : digitValue? '0' = some 0 := rfl
  refine List.forall_mem_append.2 ⟨fun c member => ?_, h⟩
  rw [List.eq_of_mem_replicate member, digitIn?, zero]
  simp [positive]

theorem valueFrom_padded (base width : Nat) (ds : List Char) :
    valueFrom base 0 (padded width ds) = valueFrom base 0 ds := by
  have zero : digitValue? '0' = some 0 := rfl
  rw [padded]
  induction width - ds.length with
  | zero => rfl
  | succ k ih =>
    rw [List.replicate_succ, List.cons_append, valueFrom, List.foldl_cons, zero]
    exact ih

theorem length_padded {width : Nat} {ds : List Char} (h : ds.length ≤ width) :
    (padded width ds).length = width := by
  rw [padded, List.length_append, List.length_replicate]
  omega

/-! ### Escapes -/

/-- Digits are read as long as there is room for them. -/
theorem readFrom_digits_append {base : Nat} {ds : List Char} (h : AreDigits base ds)
    {room : Option Nat} (fits : ∀ k ∈ room, ds.length ≤ k) (value : Nat) (rest : List Char) :
    readFrom (.digits base value room) (ds ++ rest) =
      readFrom (.digits base (valueFrom base value ds) (room.map (· - ds.length))) rest := by
  induction ds generalizing value room with
  | nil => simp [valueFrom]
  | cons d ds ih =>
    obtain ⟨first, others⟩ := List.forall_mem_cons.1 h
    have free : room ≠ some 0 := by
      rintro rfl
      exact absurd (fits 0 rfl) (by simp)
    have step : Cursor.next (.digits base value room) d =
        some ([], .digits base (base * value + (digitValue? d).getD 0) (room.map (· - 1))) := by
      rw [Cursor.next, Cursor.taken?, if_neg free, digitIn?_eq_some first]
    have shorter : ∀ k ∈ room.map (· - 1), ds.length ≤ k := by
      intro k member
      obtain ⟨j, inside, rfl⟩ := Option.mem_map.1 member
      have := fits j inside
      rw [List.length_cons] at this
      omega
    have rooms : (room.map (· - 1)).map (· - ds.length) = room.map (· - (d :: ds).length) := by
      rw [Option.map_map]
      refine Option.map_congr fun k _ => ?_
      rw [Function.comp_apply, List.length_cons, Nat.sub_sub, Nat.add_comm]
    rw [List.cons_append, readFrom_of_silent step, ih others shorter, rooms]
    rfl

/-- Reading the text gives the symbols, or, where some of them are lost, fewer. -/
def Gives (lost : Prop) (cursor : Cursor) (text : List Char) (symbols : List Symbol) : Prop :=
  ∃ found, readFrom cursor text = some found ∧ (¬lost → found = symbols) ∧
    (lost → found.length < symbols.length)

section Gives

variable {lost : Prop} {cursor : Cursor} {text : List Char} {symbols : List Symbol}

theorem Gives.of_readFrom (h : readFrom cursor text = some symbols) (kept : ¬lost) :
    Gives lost cursor text symbols :=
  ⟨symbols, h, fun _ => rfl, fun broken => absurd broken kept⟩

theorem Gives.congr {lost' : Prop} (h : Gives lost cursor text symbols) (same : lost ↔ lost') :
    Gives lost' cursor text symbols := by
  rwa [← propext same]

/-- Nothing is lost exactly where the symbols are read. -/
theorem Gives.readFrom_eq_iff (h : Gives lost cursor text symbols) :
    readFrom cursor text = some symbols ↔ ¬lost := by
  obtain ⟨found, reads, kept, short⟩ := h
  rw [reads]
  refine ⟨fun same broken => ?_, fun whole => congrArg some (kept whole)⟩
  have fewer := short broken
  rw [Option.some.inj same] at fewer
  exact absurd fewer (Nat.lt_irrefl _)

/-- What is lost of a text is lost before a part of it or in the part. -/
theorem Gives.prepend {lost' : Prop} {cursor' : Cursor} {text' : List Char} {front : List Symbol}
    (h : Gives lost cursor text symbols)
    (before : ∀ found, readFrom cursor text = some found →
      Gives lost' cursor' text' (front ++ found)) :
    Gives (lost' ∨ lost) cursor' text' (front ++ symbols) := by
  obtain ⟨found, reads, kept, short⟩ := h
  obtain ⟨all, reads', kept', short'⟩ := before found reads
  refine ⟨all, reads', fun whole => ?_, fun broken => ?_⟩
  · rw [kept' fun broken => whole (.inl broken), kept fun broken => whole (.inr broken)]
  · simp only [List.length_append] at short' ⊢
    by_cases inside : lost
    · have fewer := short inside
      by_cases outside : lost'
      · exact (short' outside).trans (Nat.add_lt_add_left fewer _)
      · rw [kept' outside, List.length_append]
        exact Nat.add_lt_add_left fewer _
    · rw [← kept inside]
      exact short' (broken.resolve_right inside)

theorem Gives.exists_readFrom (h : Gives lost cursor text symbols) :
    ∃ found, readFrom cursor text = some found ∧ found.length ≤ symbols.length := by
  obtain ⟨found, reads, kept, short⟩ := h
  by_cases broken : lost
  · exact ⟨found, reads, Nat.le_of_lt (short broken)⟩
  · exact ⟨found, reads, Nat.le_of_eq (congrArg List.length (kept broken))⟩

end Gives

/-- An escape of digits gives its unit, and loses what follows it where that starts with a digit it
has room for. -/
theorem gives_digits (base value : Nat) (room : Option Nat) {rest : List Char}
    {symbols : List Symbol} (h : readFrom .literal rest = some symbols) :
    Gives (∃ c ∈ rest.head?, (Cursor.taken? base room c).isSome = true)
      (.digits base value room) rest (.unit value :: symbols) := by
  induction rest generalizing value room symbols with
  | nil => exact absurd h (by simp [readFrom, Cursor.finish])
  | cons c cs ih =>
    cases taken : Cursor.taken? base room c with
    | none =>
      refine Gives.of_readFrom ?_ (by simp [taken])
      rw [readFrom_cons] at h ⊢
      rw [Cursor.next, taken]
      change (Cursor.inLiteral c).bind _ = _ at h
      cases step : Cursor.inLiteral c with
      | none => rw [step] at h; exact absurd h (by simp)
      | some completed =>
        rw [step, Option.bind_some] at h
        obtain ⟨others, reads, rfl⟩ := Option.map_eq_some_iff.1 h
        simp [reads]
    | some d =>
      have digit : (digitIn? base c).isSome = true := by
        rw [Cursor.taken?] at taken
        split_ifs at taken
        rw [taken]
        rfl
      have plain : Cursor.next .literal c = some ([.unit c.toNat], .literal) :=
        inLiteral_of_digit digit
      have step : Cursor.next (.digits base value room) c =
          some ([], .digits base (base * value + d) (room.map (· - 1))) := by
        rw [Cursor.next, taken]
      rw [readFrom_of_next plain] at h
      obtain ⟨others, reads, rfl⟩ := Option.map_eq_some_iff.1 h
      obtain ⟨found, continues, bounded⟩ :=
        (ih (base * value + d) (room.map (· - 1)) reads).exists_readFrom
      rw [← readFrom_of_silent step] at continues
      refine ⟨found, continues, fun kept => absurd ⟨c, rfl, by simp [taken]⟩ kept, fun _ => ?_⟩
      exact Nat.lt_succ_of_le bounded

theorem readFrom_universal {ds : List Char} (h : AreDigits 16 ds) {missing : Nat}
    (length : ds.length = missing + 1) (value : Nat) (rest : List Char) :
    readFrom (.universal value missing) (ds ++ rest) =
      (readFrom .literal rest).map (.unit (valueFrom 16 value ds) :: ·) := by
  induction ds generalizing value missing with
  | nil => exact absurd length (by simp)
  | cons d ds ih =>
    obtain ⟨first, others⟩ := List.forall_mem_cons.1 h
    have found := digitIn?_eq_some first
    cases missing with
    | zero =>
      obtain rfl : ds = [] := List.length_eq_zero_iff.1 (Nat.succ.inj length)
      have step : Cursor.next (.universal value 0) d =
          some ([.unit (16 * value + (digitValue? d).getD 0)], .literal) := by
        rw [Cursor.next, found]
        rfl
      exact readFrom_of_next step rest
    | succ missing =>
      have step : Cursor.next (.universal value (missing + 1)) d =
          some ([], .universal (16 * value + (digitValue? d).getD 0) missing) := by
        rw [Cursor.next, found]
        rfl
      rw [List.cons_append, readFrom_of_silent step]
      exact ih others (Nat.succ.inj length) _

/-- No octal digit has another meaning after a backslash. -/
theorem unnamed_of_octal {d : Char} (h : (digitIn? 8 d).isSome = true) :
    d ≠ 'x' ∧ d ≠ 'u' ∧ simple? d = none := by
  have code : 48 ≤ d.toNat ∧ d.toNat ≤ 55 := by
    rw [isSome_digitIn?_eight, isOctalDigit] at h
    simpa using h
  refine ⟨?_, ?_, ?_⟩
  · rintro rfl
    exact absurd code (by decide)
  · rintro rfl
    exact absurd code (by decide)
  · unfold simple?
    split <;> first | rfl | exact absurd code (by decide)

theorem readFrom_octal {ds : List Char} (h : AreDigits 8 ds) (nonempty : ds ≠ [])
    (few : ds.length ≤ 3) (rest : List Char) :
    readFrom .literal ('\x5c' :: ds ++ rest) =
      readFrom (.digits 8 (valueFrom 8 0 ds) (some (3 - ds.length))) rest := by
  obtain ⟨d, others, rfl⟩ := List.exists_cons_of_ne_nil nonempty
  have first := (List.forall_mem_cons.1 h).1
  -- A digit starts the escape just as it goes on in an escape that has written nothing yet.
  have start : Cursor.next .escape d = Cursor.next (.digits 8 0 (some 3)) d := by
    obtain ⟨hex, universal, unnamed⟩ := unnamed_of_octal first
    rw [Cursor.next, Cursor.inEscape, if_neg hex, if_neg universal, unnamed, Cursor.next,
      Cursor.taken?, if_neg (by simp), digitIn?_eq_some first]
    simp
  have opened : Cursor.next .literal '\x5c' = some ([], .escape) := rfl
  rw [List.cons_append, readFrom_of_silent opened, List.cons_append, readFrom_cons, start,
    ← readFrom_cons, ← List.cons_append, readFrom_digits_append h (by simpa using few)]
  rfl

theorem readFrom_hexadecimal {ds : List Char} (h : AreDigits 16 ds) (nonempty : ds ≠ [])
    (rest : List Char) :
    readFrom .literal ('\x5c' :: 'x' :: ds ++ rest) =
      readFrom (.digits 16 (valueFrom 16 0 ds) none) rest := by
  obtain ⟨d, others, rfl⟩ := List.exists_cons_of_ne_nil nonempty
  have first := (List.forall_mem_cons.1 h).1
  have start : Cursor.next .hexadecimal d = Cursor.next (.digits 16 0 none) d := by
    rw [Cursor.next, Cursor.next, Cursor.taken?, if_neg (by simp), digitIn?_eq_some first]
    simp
  have opened : Cursor.next .literal '\x5c' = some ([], .escape) := rfl
  have marked : Cursor.next .escape 'x' = some ([], .hexadecimal) := rfl
  rw [List.cons_append, List.cons_append, readFrom_of_silent opened, readFrom_of_silent marked,
    List.cons_append, readFrom_cons, start, ← readFrom_cons, ← List.cons_append,
    readFrom_digits_append h (by simp)]
  rfl

theorem readFrom_universal_escape {ds : List Char} (h : AreDigits 16 ds) (length : ds.length = 4)
    (rest : List Char) :
    readFrom .literal ('\x5c' :: 'u' :: ds ++ rest) =
      (readFrom .literal rest).map (.unit (valueFrom 16 0 ds) :: ·) := by
  have opened : Cursor.next .literal '\x5c' = some ([], .escape) := rfl
  have marked : Cursor.next .escape 'u' = some ([], .universal 0 3) := rfl
  rw [List.cons_append, List.cons_append, readFrom_of_silent opened, readFrom_of_silent marked,
    readFrom_universal h length]

theorem readFrom_named {unit : Nat} {letter : Char} (h : named? unit = some letter)
    (rest : List Char) :
    readFrom .literal ('\x5c' :: letter :: rest) =
      (readFrom .literal rest).map (.unit unit :: ·) := by
  have opened : Cursor.next .literal '\x5c' = some ([], .escape) := rfl
  have meant : Cursor.next .escape letter = some ([.unit unit], .literal) := by
    unfold named? at h
    split at h
    all_goals first | (obtain rfl := Option.some.inj h; rfl) | exact absurd h (by simp)
  rw [readFrom_of_silent opened, readFrom_of_next meant]
  rfl

theorem toNat_ofNat_of_lt : ∀ {unit : Nat}, unit < 127 → (Char.ofNat unit).toNat = unit := by
  decide

/-- A character whose unit has no named escape can stand in a literal as it is. -/
theorem plain_of_unnamed {c : Char} (h : named? c.toNat = none) :
    c ≠ '\x22' ∧ c ≠ '\x5c' ∧ c ≠ '\n' := by
  refine ⟨?_, ?_, ?_⟩ <;> rintro rfl <;> exact absurd h (by decide)

theorem readFrom_printable {unit : Nat} (h : named? unit = none)
    (printable : 32 ≤ unit ∧ unit ≤ 126) (rest : List Char) :
    readFrom .literal (Char.ofNat unit :: rest) =
      (readFrom .literal rest).map (.unit unit :: ·) := by
  have number : (Char.ofNat unit).toNat = unit := toNat_ofNat_of_lt (by omega)
  have plain : Cursor.next .literal (Char.ofNat unit) = some ([.unit unit], .literal) := by
    obtain ⟨quote, backslash, feed⟩ := plain_of_unnamed (c := Char.ofNat unit) (by rwa [number])
    have read := inLiteral_of_plain (by omega) quote backslash feed
    rwa [number] at read
  exact readFrom_of_next plain rest

/-- An octal escape loses what follows it where it has fewer than three digits and an octal digit
follows. -/
theorem gives_octal {ds : List Char} (digits : AreDigits 8 ds) (nonempty : ds ≠ [])
    (few : ds.length ≤ 3) {rest : List Char} {symbols : List Symbol}
    (h : readFrom .literal rest = some symbols) :
    Gives (∃ c ∈ rest.head?, ds.length < 3 ∧ isOctalDigit c.toNat = true) .literal
      ('\x5c' :: ds ++ rest) (.unit (valueFrom 8 0 ds) :: symbols) := by
  have room (c : Char) : (Cursor.taken? 8 (some (3 - ds.length)) c).isSome = true ↔
      ds.length < 3 ∧ isOctalDigit c.toNat = true := by
    rw [← isSome_digitIn?_eight, Cursor.taken?]
    split_ifs with full
    · have none_left : 3 - ds.length = 0 := Option.some.inj full
      simp only [Option.isSome_none, Bool.false_eq_true, false_iff]
      omega
    · have some_left : ds.length < 3 :=
        Nat.lt_of_sub_ne_zero fun zero => full (congrArg some zero)
      simp only [some_left, true_and]
  rw [Gives, readFrom_octal digits nonempty few]
  simp only [← room]
  exact gives_digits 8 _ _ h

/-- A hexadecimal escape loses what follows it where a hexadecimal digit does. -/
theorem gives_hexadecimal {ds : List Char} (digits : AreDigits 16 ds) (nonempty : ds ≠ [])
    {rest : List Char} {symbols : List Symbol} (h : readFrom .literal rest = some symbols) :
    Gives (∃ c ∈ rest.head?, isHexDigit c.toNat = true) .literal
      ('\x5c' :: 'x' :: ds ++ rest) (.unit (valueFrom 16 0 ds) :: symbols) := by
  rw [Gives, readFrom_hexadecimal digits nonempty]
  simp only [← isSome_digitIn?_sixteen]
  exact gives_digits 16 _ none h

/-! ### Units -/

/-- Whether the escape of a unit goes on with the unit after it, where it is written without regard
to that: it has room for more digits, and the other unit is one. -/
def RunsOn (unit next : Nat) : Prop :=
  named? unit = none ∧
    (unit < 32 ∧ isOctalDigit next = true ∨ 0o777 < unit ∧ isHexDigit next = true)

instance (unit next : Nat) : Decidable (RunsOn unit next) := inferInstanceAs (Decidable (_ ∧ _))

/-- The escape of a unit before another goes on with what follows, and that is not the other. -/
def Swallows (unit : Nat) (next : Option Nat) (rest : List Char) : Prop :=
  (∃ c ∈ rest.head?, RunsOn unit c.toNat) ∧ ∀ v ∈ next, ¬RunsOn unit v

/-- An octal escape without zeros on the left has room for a digit exactly below 32. -/
theorem length_toDigits_eight_lt {unit : Nat} (small : unit ≤ 0o777)
    (unprintable : ¬(32 ≤ unit ∧ unit ≤ 126)) :
    (Nat.toDigits 8 unit).length ≤ 3 ∧ ((Nat.toDigits 8 unit).length < 3 ↔ unit < 32) := by
  have bound (k : Nat) (positive : 0 < k) : (Nat.toDigits 8 unit).length ≤ k ↔ unit < 8 ^ k :=
    Nat.length_toDigits_le_iff (by decide) positive
  have two := bound 2 (by decide)
  have three := bound 3 (by decide)
  omega

theorem runsOn_iff_of_octal {unit : Nat} (unnamed : named? unit = none) (small : unit ≤ 0o777)
    (next : Nat) : RunsOn unit next ↔ unit < 32 ∧ isOctalDigit next = true := by
  simp only [RunsOn, unnamed, true_and, Nat.not_lt.2 small, false_and, or_false]

theorem runsOn_iff_of_large {unit : Nat} (unnamed : named? unit = none) (large : ¬unit ≤ 0o777)
    (next : Nat) : RunsOn unit next ↔ isHexDigit next = true := by
  have above : ¬unit < 32 := by omega
  simp only [RunsOn, unnamed, true_and, above, false_and, false_or, Nat.lt_of_not_le large]

/-- The digits of a number, maybe with zeros on the left. -/
structure Writes (base : Nat) (ds : List Char) (n : Nat) : Prop where
  digits : AreDigits base ds
  nonempty : ds ≠ []
  value : valueFrom base 0 ds = n

theorem writes_toDigits {base : Nat} (large : 1 < base) (bounded : base ≤ 16) (n : Nat) :
    Writes base (Nat.toDigits base n) n :=
  ⟨areDigits_toDigits large bounded n, Nat.toDigits_ne_nil, valueFrom_toDigits large bounded n⟩

theorem Writes.padded {base n : Nat} (positive : 0 < base) {ds : List Char}
    (h : Writes base ds n) (width : Nat) : Writes base (CLiteral.padded width ds) n where
  digits := areDigits_padded positive h.digits width
  nonempty := List.append_ne_nil_of_right_ne_nil _ h.nonempty
  value := by rw [valueFrom_padded, h.value]

/-- The forms of a unit's escape before the unit `next`. Where the escape could go on with `next`,
its digits leave no room for that. -/
inductive IsEscape (unit : Nat) (next : Option Nat) : List Char → Prop
  | named {letter : Char} (h : named? unit = some letter) : IsEscape unit next ['\x5c', letter]
  | printable (unnamed : named? unit = none) (range : 32 ≤ unit ∧ unit ≤ 126) :
      IsEscape unit next [Char.ofNat unit]
  | octal {ds : List Char} (writes : Writes 8 ds unit) (few : ds.length ≤ 3)
      (room : ∀ v, ds.length < 3 ∧ isOctalDigit v = true ↔
        RunsOn unit v ∧ ∀ w ∈ next, ¬RunsOn unit w) :
      IsEscape unit next ('\x5c' :: ds)
  | universal {ds : List Char} (writes : Writes 16 ds unit)
      (length : unit < 0x10000 → ds.length = 4) (heeds : ¬∀ w ∈ next, ¬RunsOn unit w) :
      IsEscape unit next ('\x5c' :: 'u' :: ds)
  | hexadecimal {ds : List Char} (writes : Writes 16 ds unit)
      (room : ∀ v, isHexDigit v = true ↔ RunsOn unit v ∧ ∀ w ∈ next, ¬RunsOn unit w) :
      IsEscape unit next ('\x5c' :: 'x' :: ds)

theorem isEscape_escapeUnit (unit : Nat) (next : Option Nat) :
    IsEscape unit next (escapeUnit unit next) := by
  have octalWrites : Writes 8 (Nat.toDigits 8 unit) unit :=
    writes_toDigits (by decide) (by decide) unit
  have hexWrites : Writes 16 (Nat.toDigits 16 unit) unit :=
    writes_toDigits (by decide) (by decide) unit
  rw [escapeUnit]
  split
  · next letter named => exact .named named
  · next unnamed =>
    split_ifs with printable octal octalNext hexNext
    · exact .printable unnamed printable
    · obtain ⟨w, same, digit⟩ := (Option.any_eq_true _ _).1 octalNext
      have length := length_padded (length_toDigits_eight_lt octal printable).1
      refine .octal (octalWrites.padded (by decide) 3) length.le fun v => ?_
      -- The zeros take the room that the escape has for digits.
      refine ⟨fun ⟨few, _⟩ => absurd few length.not_lt, fun ⟨swallowed, apart⟩ => ?_⟩
      have below := ((runsOn_iff_of_octal unnamed octal v).1 swallowed).1
      exact absurd ((runsOn_iff_of_octal unnamed octal w).2 ⟨below, digit⟩) (apart w same)
    · obtain ⟨few, room⟩ := length_toDigits_eight_lt octal printable
      have apart : ∀ w ∈ next, ¬RunsOn unit w := fun w same swallowed =>
        octalNext ((Option.any_eq_true _ _).2
          ⟨w, same, ((runsOn_iff_of_octal unnamed octal w).1 swallowed).2⟩)
      refine .octal octalWrites few fun v => ?_
      rw [room, ← runsOn_iff_of_octal unnamed octal, and_iff_left apart]
    · obtain ⟨w, same, digit⟩ := (Option.any_eq_true _ _).1 hexNext
      refine .universal (hexWrites.padded (by decide) 4) (fun small => ?_) fun apart => ?_
      · exact length_padded ((Nat.length_toDigits_le_iff (by decide) (by decide)).2 small)
      · exact apart w same ((runsOn_iff_of_large unnamed octal w).2 digit)
    · have apart : ∀ w ∈ next, ¬RunsOn unit w := fun w same swallowed =>
        hexNext ((Option.any_eq_true _ _).2
          ⟨w, same, (runsOn_iff_of_large unnamed octal w).1 swallowed⟩)
      refine .hexadecimal hexWrites fun v => ?_
      rw [← runsOn_iff_of_large unnamed octal, and_iff_left apart]

/-- A unit is read back, unless its escape goes on with what follows. -/
theorem gives_escapeUnit {unit : Nat} (small : unit < 0x10000) (next : Option Nat)
    {rest : List Char} {symbols : List Symbol} (h : readFrom .literal rest = some symbols) :
    Gives (Swallows unit next rest) .literal (escapeUnit unit next ++ rest)
      (.unit unit :: symbols) := by
  have whole {text : List Char} (apart : ¬Swallows unit next rest)
      (reads : readFrom .literal text = (readFrom .literal rest).map (.unit unit :: ·)) :
      Gives (Swallows unit next rest) .literal text (.unit unit :: symbols) := by
    refine Gives.of_readFrom ?_ apart
    rw [reads, h]
    rfl
  have form := isEscape_escapeUnit unit next
  generalize escapeUnit unit next = escaped at form ⊢
  cases form with
  | named named =>
    refine whole ?_ (readFrom_named named rest)
    rintro ⟨⟨c, -, unnamed, -⟩, -⟩
    exact absurd (named.symm.trans unnamed) (by simp)
  | printable unnamed range =>
    refine whole ?_ (readFrom_printable unnamed range rest)
    rintro ⟨⟨c, -, -, ⟨below, -⟩ | ⟨above, -⟩⟩, -⟩ <;> omega
  | octal writes few room =>
    have gives := gives_octal writes.digits writes.nonempty few h
    rw [writes.value] at gives
    refine gives.congr ?_
    simp only [room, Swallows, ← and_assoc, exists_and_right]
  | universal writes length heeds =>
    refine whole (fun swallowed => heeds swallowed.2) ?_
    have reads := readFrom_universal_escape writes.digits (length small) rest
    rwa [writes.value] at reads
  | hexadecimal writes room =>
    have gives := gives_hexadecimal writes.digits writes.nonempty h
    rw [writes.value] at gives
    refine gives.congr ?_
    simp only [room, Swallows, ← and_assoc, exists_and_right]

/-- To the escape before it, the start of a unit's escape is a digit just as the unit itself is. -/
theorem exists_head?_escapeUnit (unit : Nat) (next : Option Nat) :
    ∃ c, (escapeUnit unit next).head? = some c ∧
      ∀ before, RunsOn before c.toNat ↔ RunsOn before unit := by
  have marked (escaped : named? unit ≠ none ∨ ¬(32 ≤ unit ∧ unit ≤ 126)) (before : Nat) :
      RunsOn before '\x5c'.toNat ↔ RunsOn before unit := by
    have undigit : isOctalDigit unit = false ∧ isHexDigit unit = false := by
      obtain named | unprintable := escaped
      · unfold named? at named
        split at named <;> first | decide | exact absurd rfl named
      · simp only [isOctalDigit, isHexDigit, Bool.or_eq_false_iff, Bool.and_eq_false_iff,
          decide_eq_false_iff_not]
        omega
    simp only [RunsOn, undigit]
    rfl
  rw [escapeUnit]
  split
  · next letter named => exact ⟨_, rfl, marked (.inl (by simp [named]))⟩
  · split_ifs with printable
    · exact ⟨_, rfl, fun before => by rw [toNat_ofNat_of_lt (by omega)]⟩
    all_goals exact ⟨_, rfl, marked (.inr printable)⟩

/-- What follows a unit starts as the unit after it does. -/
theorem not_swallows_escapeUnits (u v : Nat) (vs : List Nat) (rest : List Char) :
    ¬Swallows u (some v) (escapeUnits (v :: vs) ++ rest) := by
  rintro ⟨⟨c, start, swallowed⟩, apart⟩
  obtain ⟨c', start', same⟩ := exists_head?_escapeUnit v vs.head?
  rw [escapeUnits, List.append_assoc, List.head?_append, start', Option.some_or] at start
  obtain rfl := Option.some.inj start
  exact apart v rfl ((same u).1 swallowed)

/-- The last of the units has an escape that goes on with the text. -/
def EndsInto (us : List Nat) (rest : List Char) : Prop :=
  ∃ u ∈ us.getLast?, ∃ c ∈ rest.head?, RunsOn u c.toNat

/-- Units are read back in order, unless the last one's escape goes on with what follows. -/
theorem gives_escapeUnits {us : List Nat} (small : ∀ u ∈ us, u < 0x10000) {rest : List Char}
    {symbols : List Symbol} (h : readFrom .literal rest = some symbols) :
    Gives (EndsInto us rest) .literal (escapeUnits us ++ rest)
      (us.map .unit ++ symbols) := by
  induction us with
  | nil => exact Gives.of_readFrom h fun ⟨u, last, _⟩ => absurd last (by simp)
  | cons u us ih =>
    obtain ⟨first, others⟩ := List.forall_mem_cons.1 small
    rw [escapeUnits, List.append_assoc]
    cases us with
    | nil =>
      refine (gives_escapeUnit first none h).congr ?_
      simp [Swallows, EndsInto]
    | cons v vs =>
      have apart := not_swallows_escapeUnits u v vs rest
      have escaped (found : List Symbol)
          (reads : readFrom .literal (escapeUnits (v :: vs) ++ rest) = some found) :
          Gives (Swallows u (some v) (escapeUnits (v :: vs) ++ rest)) .literal
            (escapeUnit u (some v) ++ (escapeUnits (v :: vs) ++ rest)) ([.unit u] ++ found) :=
        gives_escapeUnit first (some v) reads
      refine ((ih others).prepend escaped).congr ?_
      simp [apart, EndsInto]

theorem units_lt (cs : List Char) : ∀ u ∈ units cs, u < 0x10000 := by
  intro u member
  obtain ⟨c, -, inside⟩ := List.mem_flatMap.1 member
  have bound : c.toNat < 0x110000 := by
    obtain below | ⟨-, below⟩ : c.toNat < 0xD800 ∨ 0xDFFF < c.toNat ∧ c.toNat < 0x110000 := c.valid
    · exact below.trans (by decide)
    · exact below
  rw [charUnits] at inside
  split_ifs at inside <;> simp at inside <;> omega

/-! ### Expressions -/

namespace Piece

/-- What a stretch of a message stands for. -/
def symbols : Piece → List Symbol
  | .text content => (units content.toList).map .unit
  | .argument name => [.quoted name]

/-- The unit that goes on with a literal before the stretches. -/
def firstUnit? : List Piece → Option Nat
  | .text content :: rest => (units content.toList).head?.or (firstUnit? rest)
  | _ => none

/-- No escape at the end of a text goes on with the text after it. -/
def Apart : List Piece → Prop
  | [] => True
  | .argument _ :: rest => Apart rest
  | .text content :: rest =>
    (∀ u ∈ (units content.toList).getLast?, ∀ v ∈ firstUnit? rest, ¬RunsOn u v) ∧ Apart rest

instance decidableApart : (pieces : List Piece) → Decidable (Apart pieces)
  | [] => inferInstanceAs (Decidable True)
  | .argument _ :: rest => decidableApart rest
  | .text _ :: rest =>
    have := decidableApart rest
    inferInstanceAs (Decidable (_ ∧ Apart rest))

end Piece

/-- The text of a string expression. -/
def written (ts : List Token) : List Char := ts.flatMap fun t => t.text.toList

/-- The text of a string expression after a literal that it shares with what stands before. -/
def continued : List Token → List Char
  | .literal content :: rest => content.toList ++ '\x22' :: written rest
  | ts => '\x22' :: written ts

theorem written_literal (content : String) (ts : List Token) :
    written (.literal content :: ts) = '\x22' :: (content.toList ++ '\x22' :: written ts) := by
  simp [written, Token.text]

theorem written_quoted (name : String) (ts : List Token) :
    written (.quoted name :: ts) = '#' :: (name.toList ++ written ts) := by
  simp [written, Token.text]

theorem readFrom_continued (ts : List Token) :
    readFrom .literal (continued ts) = readFrom .between (written ts) := by
  have opens : Cursor.next .between '\x22' = some ([], .literal) := rfl
  have closes : Cursor.next .literal '\x22' = some ([], .between) := rfl
  match ts with
  | .literal content :: rest =>
    rw [written_literal, readFrom_of_silent opens]
    rfl
  | .quoted name :: rest => exact readFrom_of_silent closes _
  | [] => exact readFrom_of_silent closes _

theorem continued_tokens_text (content : String) (pieces : List Piece) :
    continued (tokens (.text content :: pieces)) =
      escapeUnits (units content.toList) ++ continued (tokens pieces) := by
  rw [tokens]
  split
  · next after others same =>
    rw [same, continued, continued, String.toList_append, toList_escape, List.append_assoc]
  · next apart =>
    rw [continued, toList_escape]
    cases others : tokens pieces with
    | nil => rfl
    | cons token rest =>
      cases token with
      | literal after => exact absurd others (apart after rest)
      | quoted name => rfl

/-- To the escape before them, the text of stretches starts with a digit just as they do. -/
theorem exists_runsOn_continued (before : Nat) (pieces : List Piece) :
    (∃ c ∈ (continued (tokens pieces)).head?, RunsOn before c.toNat) ↔
      ∃ v ∈ Piece.firstUnit? pieces, RunsOn before v := by
  have closing : ¬RunsOn before '\x22'.toNat := by
    simp [RunsOn, isOctalDigit, isHexDigit]
  match pieces with
  | [] => simpa [Piece.firstUnit?, tokens, continued] using closing
  | .argument name :: rest => simpa [Piece.firstUnit?, tokens, continued] using closing
  | .text content :: rest =>
    rw [continued_tokens_text, Piece.firstUnit?]
    cases units content.toList with
    | nil =>
      rw [escapeUnits, List.nil_append, List.head?_nil, Option.none_or]
      exact exists_runsOn_continued before rest
    | cons v vs =>
      obtain ⟨c, start, same⟩ := exists_head?_escapeUnit v vs.head?
      rw [escapeUnits, List.append_assoc, List.head?_append, start]
      simp [same]

theorem readFrom_name (read : List Char) {rest : List Char} (name : List Char)
    (word : ∀ c ∈ name, isWordChar c = true) :
    readFrom (.name read) (name ++ rest) = readFrom (.name (name.reverse ++ read)) rest := by
  induction name generalizing read with
  | nil => rfl
  | cons c cs ih =>
    obtain ⟨first, others⟩ := List.forall_mem_cons.1 word
    have step : Cursor.next (.name read) c = some ([], .name (c :: read)) := by
      rw [Cursor.next, if_pos first]
    rw [List.cons_append, readFrom_of_silent step, ih (c :: read) others, List.reverse_cons,
      List.append_assoc]
    rfl

/-- A name is read up to the next token. -/
theorem readFrom_quoted {name : String} (word : IsWord name) (ts : List Token) :
    readFrom .between (written (.quoted name :: ts)) =
      (readFrom .between (written ts)).map (.quoted name :: ·) := by
  have opened : Cursor.next .between '#' = some ([], .name []) := rfl
  have nonempty : name.toList.reverse.isEmpty = false := by simpa using word.1
  rw [written_quoted, readFrom_of_silent opened, readFrom_name [] _ word.2, List.append_nil]
  have ends (c : Char) (cs : List Char) (start : isWordChar c = false) :
      readFrom (.name name.toList.reverse) (c :: cs) =
        (readFrom .between (c :: cs)).map (.quoted name :: ·) := by
    rw [readFrom_cons, readFrom_cons, Cursor.next, Cursor.next, start, if_neg (by decide), nonempty,
      if_neg (by decide), List.reverse_reverse, String.ofList_toList]
    cases Cursor.start c with
    | none => rfl
    | some completed => simp [Function.comp_def]
  match ts with
  | [] => simp [written, readFrom, Cursor.finish, nonempty]
  | .literal content :: rest =>
    rw [written_literal]
    exact ends _ _ (by decide)
  | .quoted other :: rest =>
    rw [written_quoted]
    exact ends _ _ (by decide)

/-- The stretches of a message are read back, unless an escape at the end of one of them goes on
with the next. -/
theorem gives_tokens {pieces : List Piece} (words : ∀ name, .argument name ∈ pieces → IsWord name) :
    Gives (¬Piece.Apart pieces) .between (written (tokens pieces))
      (pieces.flatMap Piece.symbols) := by
  induction pieces with
  | nil => exact Gives.of_readFrom rfl (not_not.2 trivial)
  | cons piece pieces ih =>
    have rest := ih fun name member => words name (.tail _ member)
    match piece with
    | .argument name =>
      have quoted (found : List Symbol)
          (reads : readFrom .between (written (tokens pieces)) = some found) :
          Gives False .between (written (tokens (.argument name :: pieces)))
            ([.quoted name] ++ found) := by
        refine Gives.of_readFrom ?_ not_false
        rw [tokens, readFrom_quoted (words name (.head _)), reads]
        rfl
      exact (rest.prepend quoted).congr (by simp [Piece.Apart])
    | .text content =>
      have escaped (found : List Symbol)
          (reads : readFrom .between (written (tokens pieces)) = some found) :
          Gives (EndsInto (units content.toList) (continued (tokens pieces))) .between
            (written (tokens (.text content :: pieces)))
            ((units content.toList).map .unit ++ found) := by
        rw [← readFrom_continued] at reads
        rw [Gives, ← readFrom_continued, continued_tokens_text]
        exact gives_escapeUnits (units_lt content.toList) reads
      refine (rest.prepend escaped).congr ?_
      simp only [EndsInto, exists_runsOn_continued, Piece.Apart]
      grind

/-- The same of whole expressions: they always read, and give what they stand for exactly where
their stretches stay apart. -/
theorem gives_expression {pieces : List Piece}
    (words : ∀ name, .argument name ∈ pieces → IsWord name) :
    Gives (¬Piece.Apart pieces) .between (written (expression pieces))
      (pieces.flatMap Piece.symbols) := by
  rw [expression]
  split
  · next empty =>
    have same : readFrom .between (written [.literal ""]) = readFrom .between (written []) := rfl
    rw [Gives, same, ← empty]
    exact gives_tokens words
  · exact gives_tokens words

end EnumMacros.Text.CLiteral
