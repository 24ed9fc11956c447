import EnumMacros.Proofs.Preprocessor.Tokens

/-! The expansion of macro calls. A word that names a macro, with arguments in parentheses right
after it, is replaced by the body of the macro, in which every parameter has been replaced by its
argument at once; reading goes on at the front of what the call was replaced by, until no call is
left. -/

namespace EnumMacros.Preprocessor

/-! ### Calls -/

/-- The arguments of a call and what follows it, from somewhere inside its parentheses: some symbols
of an argument have been read, with some parentheses open in it. -/
def argumentsFrom : Nat → List Symbol → List Symbol → Option (List (List Symbol) × List Symbol)
  | _, _, [] => none
  | depth, read, .mark '(' :: rest => argumentsFrom (depth + 1) (read ++ [.mark '(']) rest
  | 0, read, .mark ')' :: rest => some ([read], rest)
  | depth + 1, read, .mark ')' :: rest => argumentsFrom depth (read ++ [.mark ')']) rest
  | 0, read, .mark ',' :: rest =>
    (argumentsFrom 0 [] rest).map fun (others, after) => (read :: others, after)
  | depth, read, s :: rest => argumentsFrom depth (read ++ [s]) rest

/-- Symbols with every parameter replaced by its argument, and in quotes where it follows `#`. -/
def substitute (argument? : String → Option (List Symbol)) : List Symbol → List Symbol
  | [] => []
  | .mark '#' :: .word name :: rest =>
    (match argument? name with
      | some argument => [.quotation argument]
      | none => [.mark '#', .word name]) ++ substitute argument? rest
  | .word name :: rest => (argument? name).getD [.word name] ++ substitute argument? rest
  | s :: rest => s :: substitute argument? rest

/-- What a line stands for with some arguments, if there is one for each parameter. -/
def instantiate? (line : Line) (arguments : List (List Symbol)) : Option (List Symbol) :=
  if arguments.length = line.params.length then
    some (substitute (fun name => (line.params.zip arguments).lookup name) (symbols line.body))
  else none

/-- What the call at the front stands for, and what follows the call. -/
def callAt? (table : List Line) : List Symbol → Option (List Symbol × List Symbol)
  | .word name :: .mark '(' :: rest => do
    let line ← table.find? (·.name == name)
    let (arguments, after) ← argumentsFrom 0 [] rest
    let expanded ← instantiate? line arguments
    return (expanded, after)
  | _ => none

/-- Complete expansion, from the front on. -/
inductive Expands (table : List Line) : List Symbol → List Symbol → Prop
  | nil : Expands table [] []
  | keep {s : Symbol} {rest done : List Symbol} :
      callAt? table (s :: rest) = none → Expands table rest done →
      Expands table (s :: rest) (s :: done)
  | call {s : Symbol} {rest expanded after done : List Symbol} :
      callAt? table (s :: rest) = some (expanded, after) →
      Expands table (expanded ++ after) done → Expands table (s :: rest) done

variable {table : List Line}

/-- There is at most one complete expansion. -/
theorem Expands.unique {symbols done done' : List Symbol} (h : Expands table symbols done)
    (h' : Expands table symbols done') : done = done' := by
  induction h generalizing done' with
  | nil => cases h'; rfl
  | keep uncalled _ ih =>
    cases h' with
    | keep _ rest => rw [ih rest]
    | call called _ => exact absurd called (by simp [uncalled])
  | call called _ ih =>
    cases h' with
    | keep uncalled _ => exact absurd uncalled (by simp [called])
    | call called' rest =>
      obtain ⟨rfl, rfl⟩ := Prod.mk.inj (Option.some.inj (called.symm.trans called'))
      exact ih rest

/-- No word among the symbols names a macro. -/
def Inert (table : List Line) (symbols : List Symbol) : Prop :=
  ∀ name, .word name ∈ symbols → ∀ line ∈ table, line.name ≠ name

theorem inert_append {ss ts : List Symbol} :
    Inert table (ss ++ ts) ↔ Inert table ss ∧ Inert table ts := by
  simp only [Inert, List.mem_append]
  grind

theorem callAt?_eq_none {s : Symbol} {rest : List Symbol} (h : Inert table [s]) :
    callAt? table (s :: rest) = none := by
  unfold callAt?
  split
  · next name after same =>
    obtain ⟨rfl, -⟩ := List.cons.inj same
    have unnamed : table.find? (·.name == name) = none :=
      List.find?_eq_none.2 fun line member => by simpa using h name List.mem_cons_self line member
    rw [unnamed]
    rfl
  · rfl

/-- Symbols without calls are their own expansion. -/
theorem Expands.of_inert {symbols : List Symbol} (h : Inert table symbols) :
    Expands table symbols symbols := by
  induction symbols with
  | nil => exact .nil
  | cons s rest ih =>
    obtain ⟨first, others⟩ := inert_append.1 (show Inert table ([s] ++ rest) from h)
    exact .keep (callAt?_eq_none first) (ih others)

theorem argumentsFrom_append {depth : Nat} {read symbols : List Symbol}
    {arguments : List (List Symbol)} {after : List Symbol}
    (h : argumentsFrom depth read symbols = some (arguments, after)) (more : List Symbol) :
    argumentsFrom depth read (symbols ++ more) = some (arguments, after ++ more) := by
  fun_induction argumentsFrom depth read symbols generalizing arguments after with
  | case1 => exact absurd h (by simp)
  | case2 depth read rest ih => exact ih h
  | case3 read rest =>
    obtain ⟨rfl, rfl⟩ := Prod.mk.inj (Option.some.inj h)
    rfl
  | case4 depth read rest ih => exact ih h
  | case5 read rest ih =>
    obtain ⟨⟨others, final⟩, found, same⟩ := Option.map_eq_some_iff.1 h
    obtain ⟨rfl, rfl⟩ := Prod.mk.inj same
    rw [List.cons_append, argumentsFrom, ih found]
    rfl
  | case6 depth read s rest notOpen notClose notNested notComma ih =>
    rw [List.cons_append, argumentsFrom]
    · exact ih h
    all_goals assumption

/-- A call is expanded in the same way whatever follows it. -/
theorem callAt?_append {symbols expanded after : List Symbol}
    (h : callAt? table symbols = some (expanded, after)) (more : List Symbol) :
    callAt? table (symbols ++ more) = some (expanded, after ++ more) := by
  unfold callAt? at h
  split at h
  · next name rest =>
    obtain ⟨line, found, h⟩ := Option.bind_eq_some_iff.1 h
    obtain ⟨⟨arguments, final⟩, read, h⟩ := Option.bind_eq_some_iff.1 h
    obtain ⟨filled, made, h⟩ := Option.bind_eq_some_iff.1 h
    obtain ⟨rfl, rfl⟩ := Prod.mk.inj (Option.some.inj h)
    simp [callAt?, found, argumentsFrom_append read more, made]
  · exact absurd h (by simp)

/-- Expansions can be put side by side as long as nothing that is left of the first can become a
call. -/
theorem Expands.append {ss ts done done' : List Symbol} (h : Expands table ss done)
    (h' : Expands table ts done') (inert : Inert table done) :
    Expands table (ss ++ ts) (done ++ done') := by
  induction h with
  | nil => exact h'
  | @keep s rest done uncalled _ ih =>
    obtain ⟨first, others⟩ := inert_append.1 (show Inert table ([s] ++ done) from inert)
    exact .keep (callAt?_eq_none first) (ih others)
  | call called _ ih =>
    have called := callAt?_append called ts
    rw [List.cons_append] at called
    refine .call called ?_
    rw [← List.append_assoc]
    exact ih inert

/-! ### Calls with given arguments -/

/-- A call of a macro whose arguments are those of the outermost call at some places. -/
def callSymbols (name : String) (places : List Nat) : List Symbol :=
  .word name :: .mark '(' ::
    ([Symbol.mark ','].intercalate (places.map fun place => [.argument place]) ++ [.mark ')'])

theorem argumentsFrom_places {places : List Nat} (nonempty : places ≠ []) (after : List Symbol) :
    argumentsFrom 0 [] ([Symbol.mark ','].intercalate (places.map fun place => [.argument place]) ++
      .mark ')' :: after) = some (places.map fun place => [.argument place], after) := by
  induction places with
  | nil => exact absurd rfl nonempty
  | cons place places ih =>
    cases places with
    | nil => rfl
    | cons other places =>
      have first (rest : List Symbol) :
          argumentsFrom 0 [] (.argument place :: .mark ',' :: rest) =
            (argumentsFrom 0 [] rest).map fun (others, after) =>
              ([.argument place] :: others, after) := rfl
      have rest := ih (List.cons_ne_nil _ _)
      rw [List.map_cons] at rest
      rw [List.map_cons, List.map_cons, List.intercalate_cons_cons, List.append_assoc,
        List.append_assoc, List.singleton_append, List.singleton_append, first, rest]
      rfl

/-- What a call stands for. -/
theorem callAt?_callSymbols {line : Line} {name : String}
    (found : table.find? (·.name == name) = some line) {places : List Nat} (nonempty : places ≠ [])
    {expanded : List Symbol}
    (made : instantiate? line (places.map fun place => [.argument place]) = some expanded) :
    callAt? table (callSymbols name places) = some (expanded, []) := by
  simp [callSymbols, callAt?, found, argumentsFrom_places nonempty [], made]

/-! ### Substitution -/

/-- The symbols of a token once every parameter is replaced. -/
def replaced (argument? : String → Option (List Symbol)) : Token → List Symbol
  | .word name => (argument? name).getD [.word name]
  | .mark text => marks text.toList
  | .message (.literal content) => [.literal content]
  | .message (.quoted name) =>
    match argument? name with
    | some argument => [.quotation argument]
    | none => [.mark '#', .word name]

theorem substitute_marks {argument? : String → Option (List Symbol)} {cs : List Char}
    (h : ∀ c ∈ cs, c ≠ '#') (rest : List Symbol) :
    substitute argument? (marks cs ++ rest) = marks cs ++ substitute argument? rest := by
  induction cs with
  | nil => rfl
  | cons c cs ih =>
    obtain ⟨first, others⟩ := List.forall_mem_cons.1 h
    rw [marks, List.filter_cons]
    split
    · rw [List.map_cons, List.cons_append, List.cons_append, substitute]
      · exact congrArg _ (ih others)
      · intro name after same
        exact absurd (Symbol.mark.inj same) first
      · intro name same
        exact absurd same (by simp)
    · exact ih others

/-- Parameters are replaced token by token. -/
theorem substitute_tokens {argument? : String → Option (List Symbol)} {ts : List Token}
    (h : ∀ t ∈ ts, IsWritten t) :
    substitute argument? (ts.flatMap ofToken) = ts.flatMap (replaced argument?) := by
  induction ts with
  | nil => rfl
  | cons t ts ih =>
    obtain ⟨first, others⟩ := List.forall_mem_cons.1 h
    rw [List.flatMap_cons, List.flatMap_cons, ← ih others]
    match t with
    | .word name => rfl
    | .mark text => exact substitute_marks (fun c member => (first.2 c member).2) _
    | .message (.literal content) => rfl
    | .message (.quoted name) => rfl

/-- A call stays one, with every parameter replaced among what it passes on. -/
theorem replaced_call {argument? : String → Option (List Symbol)} {c : Call}
    (callee : argument? c.callee = none) :
    c.tokens.flatMap (replaced argument?) = .word c.callee :: .mark '(' ::
      ([Symbol.mark ','].intercalate (c.arguments.map fun x => (argument? x).getD [.word x]) ++
        [.mark ')']) := by
  have opened : marks "(".toList = [.mark '('] := rfl
  have comma : marks ",".toList = [.mark ','] := rfl
  have closed : marks ")".toList = [.mark ')'] := rfl
  have arguments :
      (c.arguments.map fun x => [Token.word x]).map (List.flatMap (replaced argument?)) =
        c.arguments.map fun x => (argument? x).getD [.word x] := by
    rw [List.map_map]
    apply List.map_congr_left
    intro x member
    simp [replaced]
  rw [Call.tokens]
  simp only [List.flatMap_append, flatMap_separated, arguments, List.flatMap_cons,
    List.flatMap_nil, replaced, callee, opened, comma, closed]
  simp

/-- An assertion stays one, with every parameter replaced in its condition and its message. -/
theorem replaced_assertion {argument? : String → Option (List Symbol)}
    (word : argument? assertWord = none) (a : Assertion) (condition : List Token)
    (values : Bindings) :
    (a.tokens condition values).flatMap (replaced argument?) =
      .word assertWord :: .mark '(' :: (condition.flatMap (replaced argument?) ++ .mark ',' ::
        (((a.message.stringTokens values).map Token.message).flatMap (replaced argument?) ++
          [.mark ')'])) := by
  have opened : marks "(".toList = [.mark '('] := rfl
  have comma : marks ",".toList = [.mark ','] := rfl
  have closed : marks ")".toList = [.mark ')'] := rfl
  rw [Assertion.tokens]
  simp only [List.flatMap_append, List.flatMap_cons, List.flatMap_nil, replaced, word, opened,
    comma, closed]
  simp

end EnumMacros.Preprocessor
