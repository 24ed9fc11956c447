import EnumMacros.Proofs.Preprocessor.Symbols

/-! Macro bodies read back. The text of a body gives the symbols of its tokens, one after the other:
words are kept apart by marks, and the literals of a message end where they were meant to. -/

namespace EnumMacros.Preprocessor

open Identifier (IsWord isWordChar)

/-- The symbols of a token. -/
def ofToken : Token → List Symbol
  | .word name => [.word name]
  | .mark text => marks text.toList
  | .message (.literal content) => [.literal content]
  | .message (.quoted name) => [.mark '#', .word name]

/-- The token is read back from its text, and is no mark that quotes what follows it. -/
def IsWritten : Token → Prop
  | .word name => IsWord name
  | .mark text => text.toList ≠ [] ∧ ∀ c ∈ text.toList, IsPlain c ∧ c ≠ '#'
  | .message (.literal content) => StaysLiteral content.toList
  | .message (.quoted name) => IsWord name

/-- The tokens do not start with a word. -/
def StartsApart (ts : List Token) : Prop := ∀ name, ts.head? ≠ some (.word name)

/-- Nothing but a mark stands right before a word. -/
def Apart (t u : Token) : Prop := (∃ text, t = .mark text) ∨ ∀ name, u ≠ .word name

/-- The tokens are read back from their text. -/
structure Readable (ts : List Token) : Prop where
  written : ∀ t ∈ ts, IsWritten t
  apart : ts.IsChain Apart

theorem readable_nil : Readable [] := ⟨fun _ h => absurd h List.not_mem_nil, .nil⟩

theorem readable_word {name : String} (h : IsWord name) : Readable [.word name] :=
  ⟨fun _ member => List.mem_singleton.1 member ▸ h, .singleton _⟩

theorem Readable.append {ts us : List Token} (h : Readable ts) (h' : Readable us)
    (start : StartsApart us) : Readable (ts ++ us) := by
  refine ⟨fun t member => ?_, List.isChain_append.2 ⟨h.apart, h'.apart, ?_⟩⟩
  · rcases List.mem_append.1 member with left | right
    · exact h.written t left
    · exact h'.written t right
  · exact fun _ _ u first => .inr fun name same => start name (same ▸ first)

/-- A mark may stand before everything. -/
theorem Readable.mark {ts : List Token} (h : Readable ts) {text : String}
    (written : IsWritten (.mark text)) : Readable (.mark text :: ts) :=
  ⟨List.forall_mem_cons.2 ⟨written, h.written⟩,
    List.isChain_cons.2 ⟨fun _ _ => .inl ⟨text, rfl⟩, h.apart⟩⟩

/-- A mark ends a word, so a word before it needs no more room. -/
theorem Readable.word_mark {ts : List Token} {name text : String} (word : IsWord name)
    (h : Readable (.mark text :: ts)) : Readable (.word name :: .mark text :: ts) :=
  (readable_word word).append h fun _ same => absurd same (by simp)

theorem textOf_cons (t : Token) (ts : List Token) :
    (Token.textOf (t :: ts)).toList = t.text.toList ++ (Token.textOf ts).toList := by
  simp [Token.textOf]

/-- The text of tokens that do not start with a word goes on with no word character. -/
theorem endsWord_textOf {ts : List Token} (written : ∀ t ∈ ts, IsWritten t)
    (start : StartsApart ts) : EndsWord (Token.textOf ts).toList := by
  cases ts with
  | nil => exact fun c h => absurd h (by simp [Token.textOf])
  | cons t ts =>
    have first := written t List.mem_cons_self
    rw [textOf_cons]
    match t with
    | .word name => exact absurd rfl (start name)
    | .mark text =>
      obtain ⟨nonempty, plain⟩ := first
      obtain ⟨c, cs, spelled⟩ := List.exists_cons_of_ne_nil nonempty
      rw [spelled] at plain
      intro d h
      rw [Token.text, spelled, List.cons_append, List.head?_cons, Option.mem_some_iff] at h
      exact h ▸ (plain c List.mem_cons_self).1.1
    | .message (.literal content) | .message (.quoted name) =>
      intro d h
      simp only [Token.text, Text.CLiteral.Token.text, String.toList_append, List.append_assoc] at h
      obtain rfl := Option.some.inj h
      decide

/-- The text of a run of tokens is read back as their symbols. -/
theorem symbols_textOf {ts : List Token} (h : Readable ts) :
    symbols (Token.textOf ts) = ts.flatMap ofToken := by
  unfold symbols
  induction ts with
  | nil => rfl
  | cons t ts ih =>
    obtain ⟨first, rest⟩ := List.forall_mem_cons.1 h.written
    have others := ih ⟨rest, h.apart.tail⟩
    have ends (unmarked : ∀ text, t ≠ .mark text) : EndsWord (Token.textOf ts).toList := by
      apply endsWord_textOf rest
      intro name start
      rcases (List.isChain_cons.1 h.apart).1 _ start with ⟨text, same⟩ | apart
      · exact unmarked text same
      · exact apart name rfl
    rw [textOf_cons, List.flatMap_cons, ← others]
    match t with
    | .word name => exact symbolsFrom_word first (ends fun text => by simp)
    | .mark text => exact symbolsFrom_marks (fun c member => (first.2 c member).1) _
    | .message (.literal content) =>
      have read := symbolsFrom_literal first (Token.textOf ts).toList
      simpa [Token.text, Text.CLiteral.Token.text, ofToken] using read
    | .message (.quoted name) =>
      have ended := ends fun text => by simp
      have plain : ∀ c ∈ ['#'], IsPlain c := List.forall_mem_singleton.2 (by decide)
      have sign := symbolsFrom_marks plain (name.toList ++ (Token.textOf ts).toList)
      rw [symbolsFrom_word first ended, show marks ['#'] = [.mark '#'] from rfl] at sign
      simpa [Token.text, Text.CLiteral.Token.text, ofToken] using sign

/-! ### Bodies -/

theorem Readable.separated {runs : List (List Token)} {between : String}
    (mark : IsWritten (.mark between)) (h : ∀ run ∈ runs, Readable run) :
    Readable (Token.separated between runs) := by
  unfold Token.separated
  induction runs with
  | nil => exact readable_nil
  | cons run runs ih =>
    obtain ⟨first, rest⟩ := List.forall_mem_cons.1 h
    cases runs with
    | nil => rwa [List.intercalate_singleton]
    | cons other runs =>
      rw [List.intercalate_cons_cons, List.append_assoc]
      exact first.append ((ih rest).mark mark) fun _ same => absurd same (by simp)

theorem flatMap_separated (f : Token → List Symbol) (between : String) (runs : List (List Token)) :
    (Token.separated between runs).flatMap f =
      (f (.mark between)).intercalate (runs.map (List.flatMap f)) := by
  rw [Token.separated]
  induction runs with
  | nil => rfl
  | cons run runs ih =>
    cases runs with
    | nil => simp
    | cons other runs =>
      rw [List.intercalate_cons_cons, List.flatMap_append, List.flatMap_append, ih,
        List.flatMap_singleton]
      simp only [List.map_cons, List.intercalate_cons_cons]

/-- A literal that ends where its token ends, or one of the names to quote. -/
def IsMessageToken (quoted : String → Prop) : Text.CLiteral.Token → Prop
  | .literal content => StaysLiteral content.toList
  | .quoted name => quoted name

/-- A token of a message comes from its pieces: a literal is made of escaped texts, and what is
quoted is an argument. -/
def ComesFrom (pieces : List Text.CLiteral.Piece) : Text.CLiteral.Token → Prop
  | .literal content =>
    ∃ texts : List String, content = String.join (texts.map Text.CLiteral.escape)
  | .quoted name => .argument name ∈ pieces

theorem ComesFrom.cons {pieces : List Text.CLiteral.Piece} {token : Text.CLiteral.Token}
    (h : ComesFrom pieces token) (piece : Text.CLiteral.Piece) :
    ComesFrom (piece :: pieces) token := by
  match token with
  | .literal content => exact h
  | .quoted name => exact List.mem_cons_of_mem piece h

theorem comesFrom_of_mem_tokens (pieces : List Text.CLiteral.Piece) :
    ∀ token ∈ Text.CLiteral.tokens pieces, ComesFrom pieces token := by
  induction pieces with
  | nil => exact fun _ member => absurd member List.not_mem_nil
  | cons piece pieces ih =>
    have rest : ∀ token ∈ Text.CLiteral.tokens pieces, ComesFrom (piece :: pieces) token :=
      fun token member => (ih token member).cons piece
    match piece with
    | .argument name => exact List.forall_mem_cons.2 ⟨List.mem_cons_self, rest⟩
    | .text content =>
      rw [Text.CLiteral.tokens]
      split
      · next after others same =>
        rw [same, List.forall_mem_cons] at rest
        obtain ⟨⟨texts, rfl⟩, others⟩ := rest
        exact List.forall_mem_cons.2 ⟨⟨content :: texts, by simp⟩, others⟩
      · exact List.forall_mem_cons.2 ⟨⟨[content], by simp⟩, rest⟩

theorem comesFrom_of_mem_stringTokens {t : Template} {values : Bindings} :
    ∀ token ∈ t.stringTokens values, ComesFrom (t.parts.map (Template.piece values)) token := by
  rw [Template.stringTokens, Text.CLiteral.expression]
  split
  · exact List.forall_mem_singleton.2 ⟨[], rfl⟩
  · exact comesFrom_of_mem_tokens _

theorem staysLiteral_join (texts : List String) :
    StaysLiteral (String.join (texts.map Text.CLiteral.escape)).toList := by
  induction texts with
  | nil => exact staysLiteral_nil
  | cons text texts ih =>
    rw [List.map_cons, String.join_cons, String.toList_append, Text.CLiteral.toList_escape]
    exact (staysLiteral_escapeUnits _).append ih

/-- A message quotes nothing but the parameters among its values. -/
theorem isMessageToken_of_mem_stringTokens {quoted : String → Prop} {t : Template}
    {values : Bindings}
    (h : ∀ reference name, values.lookup reference = some (.parameter name) → quoted name) :
    ∀ token ∈ t.stringTokens values, IsMessageToken quoted token := by
  have arguments : ∀ name, .argument name ∈ t.parts.map (Template.piece values) → quoted name := by
    intro name member
    obtain ⟨part, -, same⟩ := List.mem_map.1 member
    match part with
    | .literal text => exact absurd same (by simp [Template.piece])
    | .reference reference =>
      rw [Template.piece] at same
      match found : values.lookup reference with
      | none => simp [found] at same
      | some (.text content) => simp [found, Value.piece] at same
      | some (.parameter other) =>
        simp only [found, Option.map_some, Value.piece, Option.getD_some,
          Text.CLiteral.Piece.argument.injEq] at same
        exact h reference name (same ▸ found)
  intro token member
  have source := comesFrom_of_mem_stringTokens token member
  match token with
  | .literal content =>
    obtain ⟨texts, rfl⟩ := source
    exact staysLiteral_join texts
  | .quoted name => exact arguments name source

theorem stringTokens_ne_nil (t : Template) (values : Bindings) : t.stringTokens values ≠ [] := by
  rw [Template.stringTokens, Text.CLiteral.expression]
  split
  · exact List.cons_ne_nil _ _
  · next nonempty => exact nonempty

theorem readable_messages {quoted : String → Prop} (words : ∀ name, quoted name → IsWord name)
    {tokens : List Text.CLiteral.Token} (h : ∀ token ∈ tokens, IsMessageToken quoted token) :
    Readable (tokens.map .message) := by
  refine ⟨fun t member => ?_, ?_⟩
  · obtain ⟨token, inside, rfl⟩ := List.mem_map.1 member
    have written := h token inside
    match token with
    | .literal content => exact written
    | .quoted name => exact words name written
  · refine (List.isChain_map _).2 (List.Pairwise.isChain (List.pairwise_of_forall ?_))
    exact fun _ _ => .inr fun name same => absurd same (by simp)

theorem Readable.mark_append {ts us : List Token} (h : Readable ts) {text : String}
    (h' : Readable (.mark text :: us)) : Readable (ts ++ .mark text :: us) :=
  h.append h' fun _ same => absurd same (by simp)

theorem readable_mark {text : String} (written : IsWritten (.mark text)) :
    Readable [.mark text] :=
  readable_nil.mark written

/-- The punctuation of bodies is read back. -/
theorem isWritten_mark (text : String)
    (h : text ∈ ["(", ")", ",", ";", "*", "((", ")!=(", "))", " ", "\x7b", "\x7d"]) :
    IsWritten (.mark text) := by
  have each : ∀ text ∈ ["(", ")", ",", ";", "*", "((", ")!=(", "))", " ", "\x7b", "\x7d"],
      text.toList ≠ [] ∧ (text.toList.all fun c => IsPlain c ∧ c ≠ '#') = true := by decide
  obtain ⟨nonempty, plain⟩ := each text h
  exact ⟨nonempty, fun c member => of_decide_eq_true (List.all_eq_true.1 plain c member)⟩

theorem isWord_assertWord : IsWord assertWord := by
  refine ⟨by decide, List.all_eq_true.1 ?_⟩
  decide

theorem isWord_enumWord : IsWord enumWord := by
  refine ⟨by decide, List.all_eq_true.1 ?_⟩
  decide

theorem readable_call {c : Call} (callee : IsWord c.callee)
    (arguments : ∀ a ∈ c.arguments, IsWord a) :
    Readable c.tokens := by
  have inner : Readable (Token.separated "," (c.arguments.map fun a => [.word a])) := by
    apply Readable.separated (isWritten_mark _ (by simp))
    intro run member
    obtain ⟨a, inside, rfl⟩ := List.mem_map.1 member
    exact readable_word (arguments a inside)
  have closed := inner.mark_append (readable_mark (isWritten_mark ")" (by simp)))
  have opened := (closed.mark (isWritten_mark "(" (by simp))).word_mark callee
  simpa [Call.tokens] using opened

theorem readable_comparison {x y : String} (hx : IsWord x) (hy : IsWord y) :
    Readable (Assertion.comparison x y) := by
  have last := (readable_mark (isWritten_mark "))" (by simp))).word_mark hy
  have middle := (last.mark (isWritten_mark ")!=(" (by simp))).word_mark hx
  exact middle.mark (isWritten_mark "((" (by simp))

theorem readable_assertion (a : Assertion) {condition : List Token} (h : Readable condition)
    {values : Bindings}
    (words : ∀ reference name, values.lookup reference = some (.parameter name) → IsWord name) :
    Readable (a.tokens condition values) := by
  have tokens : ∀ token ∈ a.message.stringTokens values, IsMessageToken IsWord token :=
    isMessageToken_of_mem_stringTokens words
  have message := readable_messages (fun _ word => word) tokens
  have closed := message.mark_append (readable_mark (isWritten_mark ")" (by simp)))
  have asserted := h.mark_append (closed.mark (isWritten_mark "," (by simp)))
  have opened := (asserted.mark (isWritten_mark "(" (by simp))).word_mark
    isWord_assertWord
  simpa [Assertion.tokens] using opened

theorem lookup_pairValues {x y reference name : String}
    (h : (Assertion.pairValues x y).lookup reference = some (.parameter name)) :
    name = x ∨ name = y := by
  simp only [Assertion.pairValues, List.lookup_cons, List.lookup_nil] at h
  split at h
  · exact .inl (Value.parameter.inj (Option.some.inj h)).symm
  · split at h
    · exact .inr (Value.parameter.inj (Option.some.inj h)).symm
    · exact absurd h (by simp)

theorem lookup_enumValues {n : Nat} {x y reference name : String}
    (h : (Assertion.enumValues n x y).lookup reference = some (.parameter name)) :
    name = x ∨ name = y := by
  simp only [Assertion.enumValues, List.lookup_cons, List.lookup_nil] at h
  split at h
  · exact absurd (Option.some.inj h) (by simp)
  · split at h
    · exact .inl (Value.parameter.inj (Option.some.inj h)).symm
    · split at h
      · exact .inr (Value.parameter.inj (Option.some.inj h)).symm
      · exact absurd h (by simp)

theorem readable_pair (a : Assertion) {x y : String} (hx : IsWord x) (hy : IsWord y) :
    Readable (a.pairTokens x y) := by
  rw [Assertion.pairTokens]
  cases a.extent with
  | once => exact readable_comparison hx hy
  | all =>
    apply readable_assertion a (readable_comparison hx hy)
    intro reference name found
    rcases lookup_pairValues found with rfl | rfl
    · exact hx
    · exact hy

theorem isWritten_joint (a : Assertion) : IsWritten (.mark a.joint) := by
  rw [Assertion.joint]
  cases a.extent with
  | once => exact isWritten_mark "*" (by simp)
  | all => exact isWritten_mark ";" (by simp)

theorem readable_checkTokens (a : Assertion) {d : Declaration} (name : IsWord d.name)
    (type : IsWord d.type)
    (check : ∀ c ∈ d.check, IsWord c.callee ∧ ∀ x ∈ c.arguments, IsWord x) :
    Readable (d.checkTokens a) := by
  rw [Declaration.checkTokens]
  match found : d.check with
  | none => exact readable_nil
  | some call =>
    obtain ⟨callee, arguments⟩ := check call found
    have called := readable_call callee arguments
    refine Readable.mark ?_ (isWritten_mark _ (by simp))
    cases a.extent with
    | all => exact called
    | once =>
      apply readable_assertion a called
      intro reference other same
      rcases lookup_enumValues same with rfl | rfl
      · exact name
      · exact type

theorem readable_declaration (a : Assertion) {d : Declaration} (name : IsWord d.name)
    (type : IsWord d.type) (enumerators : ∀ e ∈ d.enumerators, IsWord e.1 ∧ IsWord e.2)
    (check : ∀ c ∈ d.check, IsWord c.callee ∧ ∀ x ∈ c.arguments, IsWord x) :
    Readable (d.enumTokens ++ d.checkTokens a) := by
  have checked := readable_checkTokens a name type check
  have typed : Readable (.word d.type :: d.checkTokens a) := by
    have start : StartsApart (d.checkTokens a) := by
      intro other
      rw [Declaration.checkTokens]
      split <;> simp
    exact (readable_word type).append checked start
  have listed : Readable (Token.separated "," (d.enumerators.map fun e =>
      [.word e.1, .mark " ", .word e.2])) := by
    apply Readable.separated (isWritten_mark _ (by simp))
    intro run member
    obtain ⟨e, inside, rfl⟩ := List.mem_map.1 member
    obtain ⟨key, value⟩ := enumerators e inside
    exact ((readable_word value).mark (isWritten_mark _ (by simp))).word_mark key
  have braced := (listed.mark_append (typed.mark (isWritten_mark "\x7d" (by simp)))).mark
    (isWritten_mark "\x7b" (by simp))
  have opened := ((braced.word_mark name).mark (isWritten_mark " " (by simp))).word_mark
    isWord_enumWord
  simpa [Declaration.enumTokens] using opened

end EnumMacros.Preprocessor
