import EnumMacros.Proofs.Definition.Reading
import EnumMacros.Proofs.Preprocessor.Expansion
import Mathlib.Data.List.Forall2

/-! What an enum macro makes of its arguments. With every parameter replaced by its argument, the
body declares the enum that the caller wrote, and checks its enumerators, all of them and in the
order in which they were given; nothing else of the body is replaced. -/

namespace EnumMacros

open Preprocessor

/-! ### Lookup by position -/

theorem map_lookup_zip {α : Type} {ps : List String} (nodup : ps.Nodup) {as : List α}
    (length : as.length = ps.length) : ps.map (fun p => (ps.zip as).lookup p) = as.map some := by
  induction ps generalizing as with
  | nil =>
    obtain rfl : as = [] := List.length_eq_zero_iff.1 length
    rfl
  | cons p ps ih =>
    match as, length with
    | a :: as, length =>
      obtain ⟨absent, others⟩ := List.nodup_cons.1 nodup
      have later : ∀ q ∈ ps, ((p :: ps).zip (a :: as)).lookup q = (ps.zip as).lookup q := by
        intro q member
        have different : q ≠ p := fun same => absent (same ▸ member)
        rw [List.zip_cons_cons, List.lookup_cons, beq_eq_false_iff_ne.2 different]
      rw [List.map_cons, List.map_cons, List.map_congr_left later, ih others (Nat.succ.inj length),
        List.zip_cons_cons, List.lookup_cons_self]

theorem lookup_zip_eq_none {α : Type} {ps : List String} {q : String} (h : q ∉ ps)
    (as : List α) : (ps.zip as).lookup q = none := by
  refine List.lookup_eq_none_iff.2 fun e member => ?_
  rw [bne_iff_ne]
  rintro rfl
  exact h (List.of_mem_zip member).1

theorem forall₂_of_flatMap_eq {α β γ : Type} {f g : α → γ} {f' g' : β → γ} {xs : List α}
    {ys : List β}
    (h : xs.flatMap (fun x => [f x, g x]) = ys.flatMap fun y => [f' y, g' y]) :
    List.Forall₂ (fun x y => f x = f' y ∧ g x = g' y) xs ys := by
  induction xs generalizing ys with
  | nil =>
    cases ys with
    | nil => exact .nil
    | cons y ys => exact absurd h (by simp)
  | cons x xs ih =>
    cases ys with
    | nil => exact absurd h (by simp)
    | cons y ys =>
      simp only [List.flatMap_cons, List.cons_append, List.nil_append, List.cons.injEq] at h
      obtain ⟨first, second, rest⟩ := h
      exact .cons ⟨first, second⟩ (ih rest)

theorem map_eq_of_forall₂ {α β γ : Type} {related : α → β → Prop} {f : α → γ} {g : β → γ}
    {xs : List α} {ys : List β} (h : List.Forall₂ related xs ys)
    (same : ∀ x y, related x y → f x = g y) : xs.map f = ys.map g := by
  rw [← List.forall₂_eq_eq_eq, List.forall₂_map_left_iff, List.forall₂_map_right_iff]
  exact h.imp same

/-! ### Messages -/

/-- The token with another name in it. -/
def Text.CLiteral.Token.rename (f : String → String) : Token → Token
  | literal content => .literal content
  | quoted name => .quoted (f name)

def Text.CLiteral.Piece.rename (f : String → String) : Piece → Piece
  | text content => .text content
  | argument name => .argument (f name)

theorem tokens_rename (f : String → String) (pieces : List Text.CLiteral.Piece) :
    Text.CLiteral.tokens (pieces.map (.rename f)) =
      (Text.CLiteral.tokens pieces).map (.rename f) := by
  induction pieces with
  | nil => rfl
  | cons piece pieces ih =>
    match piece with
    | .argument name =>
      rw [List.map_cons, Text.CLiteral.Piece.rename, Text.CLiteral.tokens, Text.CLiteral.tokens, ih]
      rfl
    | .text content =>
      rw [List.map_cons, Text.CLiteral.Piece.rename, Text.CLiteral.tokens, Text.CLiteral.tokens, ih]
      cases Text.CLiteral.tokens pieces with
      | nil => rfl
      | cons token tokens =>
        cases token <;> rfl

theorem stringTokens_enumValues (t : Template) (n : Nat) (f : String → String) :
    t.stringTokens (Assertion.enumValues n (f "name") (f "type")) =
      (t.stringTokens (Assertion.enumValues n "name" "type")).map (.rename f) := by
  have pieces : t.parts.map (Template.piece (Assertion.enumValues n (f "name") (f "type"))) =
      (t.parts.map (Template.piece (Assertion.enumValues n "name" "type"))).map (.rename f) := by
    rw [List.map_map]
    apply List.map_congr_left
    intro part member
    match part with
    | .literal text => rfl
    | .reference reference =>
      simp only [Function.comp, Template.piece, Assertion.enumValues, List.lookup_cons,
        List.lookup_nil]
      split
      · rfl
      · split
        · rfl
        · split <;> rfl
  rw [Template.stringTokens, Template.stringTokens, pieces, Text.CLiteral.expression,
    Text.CLiteral.expression, tokens_rename]
  cases Text.CLiteral.tokens (t.parts.map (Template.piece (Assertion.enumValues n "name" "type")))
  · rfl
  · rfl

/-! ### Arguments -/

/-- What a caller of an enum macro writes: the name of the enum, enumerators and what is to be
written after each, and the type. -/
structure EnumArguments where
  name : List Symbol
  enumerators : List (List Symbol × List Symbol)
  type : List Symbol

namespace EnumArguments

/-- The arguments in the order of the call. -/
def toList (a : EnumArguments) : List (List Symbol) :=
  a.name :: a.enumerators.flatMap (fun (key, value) => [key, value]) ++ [a.type]

def declaration (a : EnumArguments) : List Symbol :=
  .word enumWord :: (a.name ++ .mark '\x7b' ::
    ([Symbol.mark ','].intercalate (a.enumerators.map fun (key, value) => key ++ value) ++
      .mark '\x7d' :: a.type))

/-- The call of a check of all enumerators. -/
def call (a : EnumArguments) (callee : String) : List Symbol :=
  .word callee :: .mark '(' ::
    ([Symbol.mark ','].intercalate (a.enumerators.map Prod.fst) ++ [.mark ')'])

/-- The message about the enum, in which its name and its type are quoted as they were given. -/
def message (a : EnumArguments) (t : Template) : List Symbol :=
  (t.stringTokens (Assertion.enumValues a.enumerators.length "name" "type")).map fun
    | .literal content => .literal content
    | .quoted reference => .quotation (if reference = "name" then a.name else a.type)

/-- What follows the declaration: a check, unless there is at most one enumerator. -/
def check (a : EnumArguments) (style : Style) : List Symbol :=
  let called := a.call (style.macroName .distinct a.enumerators.length)
  if a.enumerators.length < 2 then []
  else
    match style.assertion.extent with
    | .once =>
      .mark ';' :: .word assertWord :: .mark '(' ::
        (called ++ .mark ',' :: (a.message style.assertion.message ++ [.mark ')']))
    | .all => .mark ';' :: called

end EnumArguments

/-- The parameters of a declaration stand for the arguments in their places. -/
structure Declaration.Stands (d : Declaration) (argument? : String → Option (List Symbol))
    (a : EnumArguments) : Prop where
  name : argument? d.name = some a.name
  enumerators : List.Forall₂
    (fun e given => argument? e.1 = some given.1 ∧ argument? e.2 = some given.2)
    d.enumerators a.enumerators
  type : argument? d.type = some a.type

namespace Declaration.Stands

variable {d : Declaration} {argument? : String → Option (List Symbol)} {a : EnumArguments}

theorem declaration (h : d.Stands argument? a) (word : argument? enumWord = none) :
    d.enumTokens.flatMap (replaced argument?) = a.declaration := by
  have space : marks " ".toList = [] := rfl
  have comma : marks ",".toList = [.mark ','] := rfl
  have opened : marks "\x7b".toList = [.mark '\x7b'] := rfl
  have closed : marks "\x7d".toList = [.mark '\x7d'] := rfl
  have tokens : d.enumTokens = [.word enumWord, .mark " ", .word d.name, .mark "\x7b"] ++
      Token.separated "," (d.enumerators.map fun e => [.word e.1, .mark " ", .word e.2]) ++
      [.mark "\x7d", .word d.type] := rfl
  have enumerators : (d.enumerators.map fun e =>
      [Token.word e.1, .mark " ", .word e.2]).map (List.flatMap (replaced argument?)) =
        a.enumerators.map fun e => e.1 ++ e.2 := by
    rw [List.map_map]
    refine map_eq_of_forall₂ h.enumerators fun e given same => ?_
    simp only [Function.comp_apply, List.flatMap_cons, List.flatMap_nil, replaced, space, same.1,
      same.2, Option.getD_some, List.nil_append, List.append_nil]
  rw [tokens]
  simp only [List.flatMap_append, flatMap_separated, enumerators, List.flatMap_cons,
    List.flatMap_nil, replaced, h.name, h.type, word, space, comma, opened, closed]
  simp [EnumArguments.declaration]

theorem call (h : d.Stands argument? a) {callee : String} (word : argument? callee = none) :
    (Call.tokens ⟨callee, d.enumerators.map Prod.fst⟩).flatMap (replaced argument?) =
      a.call callee := by
  have keys : (d.enumerators.map Prod.fst).map (fun key => (argument? key).getD [.word key]) =
      a.enumerators.map Prod.fst := by
    rw [List.map_map]
    refine map_eq_of_forall₂ h.enumerators fun e given same => ?_
    simp [same.1]
  rw [replaced_call word, keys, EnumArguments.call]

theorem message (h : d.Stands argument? a) (t : Template) :
    ((t.stringTokens (Assertion.enumValues d.enumerators.length d.name d.type)).map
      Token.message).flatMap (replaced argument?) = a.message t := by
  have renamed := stringTokens_enumValues t d.enumerators.length fun reference =>
    if reference = "name" then d.name else d.type
  simp only [if_true, if_neg (show "type" ≠ "name" by decide)] at renamed
  rw [renamed, EnumArguments.message, h.enumerators.length_eq, List.map_map, List.flatMap_map,
    List.map_eq_flatMap]
  congr 1
  funext token
  match token with
  | .literal content => rfl
  | .quoted reference =>
    by_cases named : reference = "name"
    · simp [Text.CLiteral.Token.rename, replaced, named, h.name]
    · simp [Text.CLiteral.Token.rename, replaced, named, h.type]

theorem check (h : d.Stands argument? a) (style : Style)
    (fixed : ∀ word ∈ assertWord :: style.enumNames a.enumerators.length, argument? word = none)
    (check : d.check = if 2 ≤ a.enumerators.length then
      some ⟨style.macroName .distinct a.enumerators.length, d.enumerators.map Prod.fst⟩
    else none) :
    (d.checkTokens style.assertion).flatMap (replaced argument?) = a.check style := by
  have semicolon : marks ";".toList = [.mark ';'] := rfl
  rw [Declaration.checkTokens, check, EnumArguments.check]
  by_cases several : 2 ≤ a.enumerators.length
  · have called := h.call
      (fixed (style.macroName .distinct a.enumerators.length) (by simp [Style.enumNames, several]))
    rw [if_pos several, if_neg (by omega)]
    simp only [List.flatMap_cons, replaced, semicolon, List.singleton_append]
    cases style.assertion.extent with
    | all => exact congrArg _ called
    | once =>
      refine congrArg _ ?_
      simp only
      rw [replaced_assertion (fixed _ List.mem_cons_self), called, h.message]
  · rw [if_neg several, if_pos (by omega)]
    rfl

end Declaration.Stands

namespace Definition.IsDeclaration

variable {style : Style} {n : Nat} {d : Definition} {declaration : Declaration}

theorem length_toList (h : d.IsDeclaration style n declaration) {a : EnumArguments}
    (length : a.enumerators.length = n) : a.toList.length = d.params.length := by
  rw [h.listed]
  simp [EnumArguments.toList, length, h.length]

/-- The arguments of a call are taken in the order in which the parameters are listed. -/
theorem stands (h : d.IsDeclaration style n declaration) {a : EnumArguments}
    (length : a.toList.length = d.params.length) :
    declaration.Stands (fun name => (d.params.zip a.toList).lookup name) a := by
  have looked := map_lookup_zip h.params.nodup length
  generalize (fun name => (d.params.zip a.toList).lookup name) = argument? at looked ⊢
  rw [h.listed, EnumArguments.toList] at looked
  simp only [List.cons_append, List.map_cons, List.map_append, List.map_nil, List.map_flatMap,
    List.cons.injEq] at looked
  obtain ⟨name, others⟩ := looked
  obtain ⟨enumerators, type⟩ := List.append_inj' others rfl
  exact ⟨name, forall₂_of_flatMap_eq enumerators, (List.cons.inj type).1⟩

/-- The words that the body is made of are no parameters. -/
theorem fixed (h : d.IsDeclaration style n declaration) :
    ∀ word ∈ assertWord :: style.enumNames n, word ∉ d.params := by
  intro word other member
  rcases List.mem_cons.1 other with rfl | other
  · exact (h.params.words _ member).2 rfl
  · exact h.params.apart _ member other

end Definition.IsDeclaration

namespace Style

/-- An enum macro declares what its caller wrote. It is defined for every size within bounds; and
whatever its composer has been asked before, its parameters differ from each other and from the
words that the body is made of, so that a call comes to the declaration of the given enum, and,
with more than one enumerator, the check of all of them. -/
theorem enum_declares_arguments (style : Style) (accepted : style.IsAccepted) (n : Nat)
    (least : 1 ≤ n) (small : n < sizeLimit) :
    (∀ c, Composer.Reached style c → ∃ line, (c.defineLine .enum n).1 = some line) ∧
    ∀ line, style.Prints .enum n line →
      line.params.Nodup ∧ (∀ word ∈ assertWord :: style.enumNames n, word ∉ line.params) ∧
      ∀ a : EnumArguments, a.enumerators.length = n →
        instantiate? line a.toList = some (a.declaration ++ a.check style) := by
  refine ⟨fun c reached => exists_prints reached least small, fun line prints => ?_⟩
  obtain ⟨d, declaration, declares, rfl⟩ := prints.isDeclaration small
  refine ⟨declares.params.nodup, declares.fixed, fun a length => ?_⟩
  have arguments := declares.length_toList length
  have readable := declares.readable accepted
  have stands := declares.stands arguments
  have kept : ∀ word ∈ assertWord :: style.enumNames n,
      (d.params.zip a.toList).lookup word = none :=
    fun word other => lookup_zip_eq_none (declares.fixed word other) a.toList
  have declared := stands.declaration (kept enumWord (by simp [Style.enumNames]))
  have checked := stands.check style (by rwa [length]) (by rw [length, declares.check])
  rw [instantiate?, Definition.line, if_pos arguments, Body.text, symbols_textOf readable,
    substitute_tokens readable.written, declares.body, Body.tokens, List.flatMap_append, declared,
    checked]

/-- An enum of two, whose type is left out. -/
theorem enum_declares_two :
    let line : Line := ⟨"uniqenum2", ["f", "a", "c", "b", "d", "g"],
      "enum f\x7ba c,b d\x7dg;_Static_assert(areuniq2(a,b),\"duplicate enum values: \"#f\" \"#g)"⟩
    let a : EnumArguments :=
      ⟨[.word "color"], [([.word "red"], [.mark '=', .word "1"]), ([.word "blue"], [])], []⟩
    (1 ≤ 2 ∧ 2 < sizeLimit ∧ standard.IsAccepted) ∧
    instantiate? line a.toList = some (a.declaration ++ a.check standard) := by
  intro line a
  have prints : standard.Prints .enum 2 line := ⟨_, .start, by decide +kernel⟩
  obtain ⟨-, all⟩ := enum_declares_arguments standard isAccepted_standard 2 (by decide) (by decide)
  exact ⟨⟨by decide, by decide, isAccepted_standard⟩, (all line prints).2.2 a rfl⟩

end Style

end EnumMacros
