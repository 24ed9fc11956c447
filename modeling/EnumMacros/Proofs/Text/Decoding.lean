import EnumMacros.Proofs.Text.Reading

/-! The content of a string literal decoded on its own, escape by escape, by the rules of C. An
escape takes on every digit that it has room for: up to three octal digits, exactly four hexadecimal
ones after `\u`, and as many as come after `\x`. What a content is decoded to is what a reader finds
in the literal wherever that stands, `readFrom_of_decode?`, and a text escaped for a literal is
decoded to the units of the text, `escape_decodes`. -/

namespace EnumMacros.Text.CLiteral

/-! ### Numbers in escapes -/

/-- The number written by the digits at the start of a text, of which no more than `most` are taken
where that is bounded, and what follows them; none when they are fewer than `least`. -/
def takeNumber? (base least : Nat) (most : Option Nat) (cs : List Char) :
    Option (Nat × List Char) :=
  let digits := cs.takeWhile fun c => (digitIn? base c).isSome
  let taken := most.elim digits digits.take
  if least ≤ taken.length then some (valueFrom base 0 taken, cs.drop taken.length) else none

/-- Enough digits for an escape, and it takes on no more of them: it has no room, or what follows
starts with no digit. -/
structure Fills (base least : Nat) (most : Option Nat) (ds rest : List Char) : Prop where
  digits : AreDigits base ds
  enough : least ≤ ds.length
  room : ∀ k ∈ most, ds.length ≤ k
  ends : most = some ds.length ∨ ∀ c ∈ rest.head?, (digitIn? base c).isSome = false

section Numbers

variable {base least : Nat} {most : Option Nat} {ds cs rest : List Char} {unit : Nat}

/-- An escape is full when it has as many digits as it may have. -/
theorem Fills.full {k : Nat} (digits : AreDigits base ds) (length : ds.length = k)
    (enough : least ≤ k) : Fills base least (some k) ds rest where
  digits := digits
  enough := enough.trans length.ge
  room := by
    rintro _ ⟨⟩
    exact length.le
  ends := .inl (congrArg some length.symm)

theorem takeNumber?_append (h : Fills base least most ds rest) :
    takeNumber? base least most (ds ++ rest) = some (valueFrom base 0 ds, rest) := by
  have taken : most.elim ((ds ++ rest).takeWhile fun c => (digitIn? base c).isSome)
      ((ds ++ rest).takeWhile fun c => (digitIn? base c).isSome).take = ds := by
    rw [List.takeWhile_append_of_pos h.digits]
    obtain full | ends := h.ends
    · rw [full]
      exact List.take_left
    · have stops : rest.takeWhile (fun c => (digitIn? base c).isSome) = [] := by
        cases rest with
        | nil => rfl
        | cons c cs => rw [List.takeWhile_cons, ends c rfl]; rfl
      rw [stops, List.append_nil]
      cases most with
      | none => rfl
      | some k => exact List.take_of_length_le (h.room k rfl)
  simp only [takeNumber?]
  rw [taken, if_pos h.enough, List.drop_left]

/-- A text is cut after the digits at its start. -/
theorem exists_digits (base : Nat) (cs : List Char) :
    ∃ ds others, cs = ds ++ others ∧ (cs.takeWhile fun c => (digitIn? base c).isSome) = ds ∧
      AreDigits base ds ∧ ∀ c ∈ others.head?, (digitIn? base c).isSome = false := by
  refine ⟨_, _, List.takeWhile_append_dropWhile.symm, rfl, List.all_eq_true.1 List.all_takeWhile,
    fun c start => ?_⟩
  have stops := List.head?_dropWhile_not (fun c => (digitIn? base c).isSome) cs
  rw [Option.mem_def.1 start] at stops
  simpa using stops

theorem exists_fills (h : takeNumber? base least most cs = some (unit, rest)) :
    ∃ ds, Fills base least most ds rest ∧ cs = ds ++ rest ∧ valueFrom base 0 ds = unit := by
  obtain ⟨all, others, rfl, taken, digits, stops⟩ := exists_digits base cs
  simp only [takeNumber?, taken, Option.ite_none_right_eq_some, Option.some.injEq,
    Prod.mk.injEq] at h
  obtain ⟨enough, value, rfl⟩ := h
  by_cases room : ∀ k ∈ most, all.length ≤ k
  · have whole : most.elim all all.take = all := by
      cases most with
      | none => rfl
      | some k => exact List.take_of_length_le (room k rfl)
    rw [whole] at enough value ⊢
    rw [List.drop_left]
    exact ⟨all, ⟨digits, enough, room, .inr stops⟩, rfl, value⟩
  · obtain ⟨k, rfl, short⟩ : ∃ k, most = some k ∧ k < all.length := by simpa using room
    have length : (all.take k).length = k := List.length_take_of_le short.le
    have cut : all ++ others = all.take k ++ (all ++ others).drop k := by
      rw [← List.take_append_of_le_length short.le, List.take_append_drop]
    have first : AreDigits base (all.take k) := fun c member =>
      digits c (List.mem_of_mem_take member)
    refine ⟨all.take k, .full first length (enough.trans length.le), ?_, value⟩
    rw [Option.elim_some, length]
    exact cut

end Numbers

/-! ### Contents -/

/-- The unit of the escape that goes on after a backslash, and what follows it. -/
def takeEscape? : List Char → Option (Nat × List Char)
  | [] => none
  | c :: cs =>
    if c = 'x' then takeNumber? 16 1 none cs
    else if c = 'u' then takeNumber? 16 4 (some 4) cs
    else
      match simple? c with
      | some unit => some (unit, cs)
      | none => takeNumber? 8 1 (some 3) (c :: cs)

theorem length_le_of_takeNumber? {base least : Nat} {most : Option Nat} {cs rest : List Char}
    {unit : Nat} (h : takeNumber? base least most cs = some (unit, rest)) :
    rest.length ≤ cs.length := by
  obtain ⟨ds, -, rfl, -⟩ := exists_fills h
  rw [List.length_append]
  exact Nat.le_add_left _ _

theorem length_le_of_takeEscape? {cs rest : List Char} {unit : Nat}
    (h : takeEscape? cs = some (unit, rest)) : rest.length ≤ cs.length := by
  cases cs with
  | nil => exact absurd h (by simp [takeEscape?])
  | cons c cs =>
    rw [takeEscape?] at h
    split_ifs at h
    · exact (length_le_of_takeNumber? h).trans (Nat.le_succ _)
    · exact (length_le_of_takeNumber? h).trans (Nat.le_succ _)
    · split at h
      · obtain ⟨-, rfl⟩ := Prod.mk.inj (Option.some.inj h)
        exact Nat.le_succ _
      · exact length_le_of_takeNumber? h

/-- The units that the content of a literal stands for. There are none where it ends within an
escape, or has a line feed, a quote that is not escaped, or an escape that does not exist. -/
def decode? : List Char → Option (List Nat)
  | [] => some []
  | c :: cs =>
    if c = '\x5c' then
      match _escaped : takeEscape? cs with
      | some (unit, rest) => (decode? rest).map (unit :: ·)
      | none => none
    else if c = '\x22' ∨ c = '\n' then none
    else (decode? cs).map (charUnits c ++ ·)
termination_by cs => cs.length
decreasing_by
  · exact Nat.lt_succ_of_le (length_le_of_takeEscape? _escaped)
  · exact Nat.lt_succ_self _

theorem decode?_nil : decode? [] = some [] := by rw [decode?]

theorem decode?_escape {cs rest : List Char} {unit : Nat}
    (h : takeEscape? cs = some (unit, rest)) :
    decode? ('\x5c' :: cs) = (decode? rest).map (unit :: ·) := by
  rw [decode?, if_pos rfl]
  split
  · next taken =>
    rw [h] at taken
    obtain ⟨rfl, rfl⟩ := Prod.mk.inj (Option.some.inj taken)
    rfl
  · next none => exact absurd (none.symm.trans h) (by simp)

theorem decode?_plain {c : Char} (backslash : c ≠ '\x5c') (quote : c ≠ '\x22') (feed : c ≠ '\n')
    (cs : List Char) : decode? (c :: cs) = (decode? cs).map (charUnits c ++ ·) := by
  rw [decode?, if_neg backslash, if_neg (not_or.2 ⟨quote, feed⟩)]

/-! ### Contents between quotes -/

/-- An escape of digits is complete where its number ends, and the quote ends every number. -/
theorem Fills.readFrom_eq {base least : Nat} {most : Option Nat} {ds rest : List Char}
    (h : Fills base least most ds rest) (value : Nat) (tail : List Char) :
    readFrom (.digits base value (most.map (· - ds.length))) (rest ++ '\x22' :: tail) =
      (readFrom .literal (rest ++ '\x22' :: tail)).map (.unit value :: ·) := by
  obtain ⟨c, cs, start⟩ : ∃ c cs, rest ++ '\x22' :: tail = c :: cs :=
    List.exists_cons_of_ne_nil (by simp)
  have stops : Cursor.taken? base (most.map (· - ds.length)) c = none := by
    rw [Cursor.taken?]
    split_ifs with full
    · rfl
    · obtain whole | ends := h.ends
      · rw [whole] at full
        exact absurd (congrArg some (Nat.sub_self _)) full
      · rw [← Option.not_isSome_iff_eq_none, Bool.not_eq_true]
        cases rest with
        | nil =>
          obtain ⟨rfl, -⟩ := List.cons.inj start
          rfl
        | cons d ds =>
          obtain ⟨rfl, -⟩ := List.cons.inj start
          exact ends d rfl
  have step : Cursor.next (.digits base value (most.map (· - ds.length))) c =
      (Cursor.inLiteral c).map fun completed => (.unit value :: completed.1, completed.2) := by
    rw [Cursor.next, stops]
  have plain : Cursor.next .literal c = Cursor.inLiteral c := rfl
  rw [start, readFrom_cons, readFrom_cons, step, plain]
  cases Cursor.inLiteral c with
  | none => rfl
  | some completed => simp [Function.comp_def]

theorem readFrom_of_takeEscape? {cs rest : List Char} {unit : Nat}
    (h : takeEscape? cs = some (unit, rest)) (tail : List Char) :
    readFrom .literal ('\x5c' :: (cs ++ '\x22' :: tail)) =
      (readFrom .literal (rest ++ '\x22' :: tail)).map (.unit unit :: ·) := by
  cases cs with
  | nil => exact absurd h (by simp [takeEscape?])
  | cons c cs =>
    rw [takeEscape?] at h
    split_ifs at h with hexadecimal universal
    · subst hexadecimal
      obtain ⟨ds, fills, rfl, rfl⟩ := exists_fills h
      have nonempty : ds ≠ [] := List.ne_nil_of_length_pos fills.enough
      have reads := readFrom_hexadecimal fills.digits nonempty (rest ++ '\x22' :: tail)
      simp only [List.cons_append, List.append_assoc] at reads ⊢
      rw [reads]
      exact fills.readFrom_eq _ tail
    · subst universal
      obtain ⟨ds, fills, rfl, rfl⟩ := exists_fills h
      have four : ds.length = 4 := le_antisymm (fills.room 4 rfl) fills.enough
      have reads := readFrom_universal_escape fills.digits four (rest ++ '\x22' :: tail)
      simp only [List.cons_append, List.append_assoc] at reads ⊢
      exact reads
    · split at h
      · next value named =>
        obtain ⟨rfl, rfl⟩ := Prod.mk.inj (Option.some.inj h)
        have opened : Cursor.next .literal '\x5c' = some ([], .escape) := rfl
        have meant : Cursor.next .escape c = some ([.unit value], .literal) := by
          rw [Cursor.next, Cursor.inEscape, if_neg hexadecimal, if_neg universal, named]
        rw [readFrom_of_silent opened, List.cons_append, readFrom_of_next meant]
        rfl
      · obtain ⟨ds, fills, split, rfl⟩ := exists_fills h
        have nonempty : ds ≠ [] := List.ne_nil_of_length_pos fills.enough
        have reads := readFrom_octal fills.digits nonempty (fills.room 3 rfl)
          (rest ++ '\x22' :: tail)
        rw [split]
        simp only [List.cons_append, List.append_assoc] at reads ⊢
        rw [reads]
        exact fills.readFrom_eq _ tail

/-- Between quotes a content is read as it is decoded, and reading goes on after the second quote,
whatever stands there. -/
theorem readFrom_of_decode? {cs : List Char} {us : List Nat} (h : decode? cs = some us)
    (rest : List Char) :
    readFrom .literal (cs ++ '\x22' :: rest) =
      (readFrom .between rest).map (us.map .unit ++ ·) := by
  fun_induction decode? cs generalizing us with
  | case1 =>
    obtain rfl := Option.some.inj h
    have closed : Cursor.next .literal '\x22' = some ([], .between) := rfl
    rw [List.nil_append, readFrom_of_next closed]
    rfl
  | case2 cs unit after escaped ih =>
    obtain ⟨others, decoded, rfl⟩ := Option.map_eq_some_iff.1 h
    rw [List.cons_append, readFrom_of_takeEscape? escaped, ih decoded, Option.map_map]
    rfl
  | case3 cs none => exact absurd h (by simp)
  | case4 c cs backslash mark => exact absurd h (by simp)
  | case5 c cs backslash plain ih =>
    obtain ⟨others, decoded, rfl⟩ := Option.map_eq_some_iff.1 h
    rw [not_or] at plain
    have step : Cursor.next .literal c = some ((charUnits c).map .unit, .literal) := by
      rw [Cursor.next, Cursor.inLiteral, if_neg plain.1, if_neg backslash, if_neg plain.2]
    rw [List.cons_append, readFrom_of_next step, ih decoded, Option.map_map]
    simp [Function.comp_def]

/-! ### Escaped units -/

theorem takeEscape?_named {unit : Nat} {letter : Char} (h : named? unit = some letter)
    (rest : List Char) : takeEscape? (letter :: rest) = some (unit, rest) := by
  unfold named? at h
  split at h
  all_goals first | (obtain rfl := Option.some.inj h; rfl) | exact absurd h (by simp)

theorem takeEscape?_octal {ds rest : List Char} (h : Fills 8 1 (some 3) ds rest) :
    takeEscape? (ds ++ rest) = some (valueFrom 8 0 ds, rest) := by
  obtain ⟨d, others, rfl⟩ := List.exists_cons_of_ne_nil (List.ne_nil_of_length_pos h.enough)
  obtain ⟨hex, universal, unnamed⟩ := unnamed_of_octal (List.forall_mem_cons.1 h.digits).1
  rw [← takeNumber?_append h, List.cons_append, takeEscape?, if_neg hex, if_neg universal, unnamed]

theorem takeEscape?_hexadecimal {ds rest : List Char} (h : Fills 16 1 none ds rest) :
    takeEscape? ('x' :: (ds ++ rest)) = some (valueFrom 16 0 ds, rest) :=
  takeNumber?_append h

theorem takeEscape?_universal {ds rest : List Char} (h : Fills 16 4 (some 4) ds rest) :
    takeEscape? ('u' :: (ds ++ rest)) = some (valueFrom 16 0 ds, rest) :=
  takeNumber?_append h

/-- A unit is decoded from its escape, unless that goes on with what follows. -/
theorem decode?_escapeUnit {unit : Nat} (small : unit < 0x10000) {next : Option Nat}
    {rest : List Char} (apart : ¬Swallows unit next rest) :
    decode? (escapeUnit unit next ++ rest) = (decode? rest).map (unit :: ·) := by
  have form := isEscape_escapeUnit unit next
  generalize escapeUnit unit next = escaped at form ⊢
  cases form with
  | named named => exact decode?_escape (takeEscape?_named named rest)
  | printable unnamed range =>
    have number : (Char.ofNat unit).toNat = unit := toNat_ofNat_of_lt (by omega)
    obtain ⟨quote, backslash, feed⟩ := plain_of_unnamed (c := Char.ofNat unit) (by rwa [number])
    have units : charUnits (Char.ofNat unit) = [unit] := by
      rw [charUnits, number, if_pos small]
    rw [List.singleton_append, decode?_plain backslash quote feed, units]
    rfl
  | @octal ds writes few room =>
    have ends : some 3 = some ds.length ∨ ∀ c ∈ rest.head?, (digitIn? 8 c).isSome = false := by
      obtain short | full := Nat.lt_or_eq_of_le few
      · refine .inr fun c start => Bool.eq_false_iff.2 fun digit => ?_
        rw [isSome_digitIn?_eight] at digit
        obtain ⟨swallowed, heedless⟩ := (room c.toNat).1 ⟨short, digit⟩
        exact apart ⟨⟨c, start, swallowed⟩, heedless⟩
      · exact .inl (congrArg some full.symm)
    have fills : Fills 8 1 (some 3) ds rest :=
      ⟨writes.digits, List.length_pos_of_ne_nil writes.nonempty, by simpa using few, ends⟩
    rw [List.cons_append, decode?_escape (takeEscape?_octal fills), writes.value]
  | @universal ds writes length heeds =>
    have fills : Fills 16 4 (some 4) ds rest := .full writes.digits (length small) le_rfl
    rw [List.cons_append, List.cons_append, decode?_escape (takeEscape?_universal fills),
      writes.value]
  | @hexadecimal ds writes room =>
    have ends : ∀ c ∈ rest.head?, (digitIn? 16 c).isSome = false := by
      refine fun c start => Bool.eq_false_iff.2 fun digit => ?_
      rw [isSome_digitIn?_sixteen] at digit
      obtain ⟨swallowed, heedless⟩ := (room c.toNat).1 digit
      exact apart ⟨⟨c, start, swallowed⟩, heedless⟩
    have fills : Fills 16 1 none ds rest :=
      ⟨writes.digits, List.length_pos_of_ne_nil writes.nonempty, by simp, .inr ends⟩
    rw [List.cons_append, List.cons_append, decode?_escape (takeEscape?_hexadecimal fills),
      writes.value]

theorem decode?_escapeUnits {us : List Nat} (small : ∀ u ∈ us, u < 0x10000) :
    decode? (escapeUnits us) = some us := by
  induction us with
  | nil => exact decode?_nil
  | cons u us ih =>
    obtain ⟨first, others⟩ := List.forall_mem_cons.1 small
    have apart : ¬Swallows u us.head? (escapeUnits us) := by
      cases us with
      | nil => simp [Swallows, escapeUnits]
      | cons v vs =>
        have := not_swallows_escapeUnits u v vs []
        rwa [List.append_nil] at this
    rw [escapeUnits, decode?_escapeUnit first apart, ih others]
    rfl

/-! ### Escaped texts -/

/-- The characters of ASCII that have a glyph, and the space. -/
def IsGraphic (c : Char) : Prop := 32 ≤ c.toNat ∧ c.toNat ≤ 126

instance (c : Char) : Decidable (IsGraphic c) := inferInstanceAs (Decidable (_ ∧ _))

theorem isGraphic_of_areDigits {base : Nat} {ds : List Char} (h : AreDigits base ds) :
    ∀ c ∈ ds, IsGraphic c := by
  intro c member
  have range := toNat_of_isSome_digitIn? (h c member)
  unfold IsGraphic
  omega

theorem isGraphic_of_mem_escapeUnit {unit : Nat} {next : Option Nat} :
    ∀ c ∈ escapeUnit unit next, IsGraphic c := by
  have marks : IsGraphic '\x5c' ∧ IsGraphic 'x' ∧ IsGraphic 'u' := by decide
  have form := isEscape_escapeUnit unit next
  generalize escapeUnit unit next = escaped at form ⊢
  cases form with
  | named named =>
    refine List.forall_mem_cons.2 ⟨marks.1, List.forall_mem_singleton.2 ?_⟩
    unfold named? at named
    split at named
    all_goals first | (obtain rfl := Option.some.inj named; decide) | exact absurd named (by simp)
  | printable unnamed range =>
    rw [List.forall_mem_singleton, IsGraphic, toNat_ofNat_of_lt (by omega)]
    exact range
  | octal writes =>
    exact List.forall_mem_cons.2 ⟨marks.1, isGraphic_of_areDigits writes.digits⟩
  | universal writes =>
    exact List.forall_mem_cons.2 ⟨marks.1, List.forall_mem_cons.2
      ⟨marks.2.2, isGraphic_of_areDigits writes.digits⟩⟩
  | hexadecimal writes =>
    exact List.forall_mem_cons.2 ⟨marks.1, List.forall_mem_cons.2
      ⟨marks.2.1, isGraphic_of_areDigits writes.digits⟩⟩

theorem isGraphic_of_mem_escapeUnits {us : List Nat} : ∀ c ∈ escapeUnits us, IsGraphic c := by
  induction us with
  | nil => simp [escapeUnits]
  | cons u us ih => exact List.forall_mem_append.2 ⟨isGraphic_of_mem_escapeUnit, ih⟩

/-- An escaped text consists of printable characters of ASCII and is decoded to the units of the
text, so that nothing is lost, no quote in it is unescaped and no escape is cut off at its end.
Between quotes it is read as these units, and the second quote is the one that ends it, whatever
comes after that. -/
theorem escape_decodes (text : String) :
    (∀ c ∈ (escape text).toList, 32 ≤ c.toNat ∧ c.toNat ≤ 126) ∧
      decode? (escape text).toList = some (units text.toList) ∧
      ∀ rest, readFrom .literal ((escape text).toList ++ '\x22' :: rest) =
        (readFrom .between rest).map ((units text.toList).map .unit ++ ·) := by
  have decoded : decode? (escape text).toList = some (units text.toList) := by
    rw [toList_escape]
    exact decode?_escapeUnits (units_lt text.toList)
  refine ⟨?_, decoded, fun rest => readFrom_of_decode? decoded rest⟩
  rw [toList_escape]
  exact isGraphic_of_mem_escapeUnits

end EnumMacros.Text.CLiteral
