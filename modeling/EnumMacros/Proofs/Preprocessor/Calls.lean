import EnumMacros.Proofs.Preprocessor.Tokens

/-! The macros that a body calls. A call is a word right before an opening parenthesis, so it can be
told by looking at two symbols at a time. Parameters never stand there. -/

namespace EnumMacros

/-- The smaller checks that a body calls. -/
def Body.called : Body → List Call
  | comparisons _ => []
  | calls group => group
  | declaration d => d.check.toList

end EnumMacros

namespace EnumMacros.Preprocessor

/-- A name stands right before an opening parenthesis. -/
def Calls (symbols : List Symbol) (name : String) : Prop :=
  [.word name, .mark '('] <:+: symbols

/-- Only names with a property stand right before an opening parenthesis. -/
def CallsOnly (called : String → Prop) (symbols : List Symbol) : Prop :=
  symbols.IsChain fun s t => ∀ name, s = .word name → t = .mark '(' → called name

/-- The last symbol is no word. -/
def EndsApart (symbols : List Symbol) : Prop := ∀ name, symbols.getLast? ≠ some (.word name)

variable {called : String → Prop} {xs ys : List Symbol}

theorem CallsOnly.of_calls (h : CallsOnly called xs) {name : String} (call : Calls xs name) :
    called name := by
  obtain ⟨before, after, rfl⟩ := call
  have pair := (List.isChain_append.1 (List.isChain_append.1 h).1).2.1
  exact (List.isChain_cons_cons.1 pair).1 name rfl rfl

theorem callsOnly_nil : CallsOnly called [] := .nil

theorem callsOnly_of_not_mem (h : .mark '(' ∉ xs) : CallsOnly called xs := by
  induction xs with
  | nil => exact callsOnly_nil
  | cons x xs ih =>
    rw [List.mem_cons, not_or] at h
    refine List.isChain_cons.2 ⟨fun y first name _ opened => ?_, ih h.2⟩
    subst opened
    exact absurd (List.mem_of_mem_head? first) h.2

theorem CallsOnly.append (h : CallsOnly called xs) (h' : CallsOnly called ys)
    (apart : EndsApart xs) : CallsOnly called (xs ++ ys) := by
  refine List.isChain_append.2 ⟨h, h', fun x last y _ name same _ => ?_⟩
  subst same
  exact absurd last (apart name)

/-- What does not go on with an opening parenthesis may follow a word. -/
theorem CallsOnly.append_of_head? (h : CallsOnly called xs) (h' : CallsOnly called ys)
    (start : ys.head? ≠ some (.mark '(')) : CallsOnly called (xs ++ ys) := by
  refine List.isChain_append.2 ⟨h, h', fun x _ y first name _ same => ?_⟩
  subst same
  exact absurd first start

theorem CallsOnly.cons_mark (h : CallsOnly called xs) (c : Char) :
    CallsOnly called (.mark c :: xs) :=
  List.isChain_cons.2 ⟨fun _ _ _ same => absurd same (by simp), h⟩

theorem endsApart_append_mark (xs : List Symbol) (c : Char) : EndsApart (xs ++ [.mark c]) := by
  intro name
  simp

theorem EndsApart.append (h : EndsApart xs) (h' : EndsApart ys) : EndsApart (xs ++ ys) := by
  intro name
  rw [List.getLast?_append]
  cases last : ys.getLast? with
  | none => exact h name
  | some y => rw [← last]; simpa [last] using h' name

/-! ### Pieces of bodies -/

/-- Tokens that call only some names, whatever stands after them. -/
structure IsSettled (called : String → Prop) (ts : List Token) : Prop where
  calls : CallsOnly called (ts.flatMap ofToken)
  ends : EndsApart (ts.flatMap ofToken)

variable {ts us : List Token}

theorem isSettled_nil : IsSettled called [] := ⟨callsOnly_nil, fun name => by simp⟩

theorem IsSettled.append (h : IsSettled called ts) (h' : IsSettled called us) :
    IsSettled called (ts ++ us) := by
  constructor
  · rw [List.flatMap_append]
    exact h.calls.append h'.calls h.ends
  · rw [List.flatMap_append]
    exact h.ends.append h'.ends

theorem isSettled_mark {text : String} {c : Char} (symbols : ofToken (.mark text) = [.mark c]) :
    IsSettled called [.mark text] := by
  refine ⟨?_, fun name => ?_⟩
  · rw [List.flatMap_singleton, symbols]
    exact .singleton _
  · rw [List.flatMap_singleton, symbols]
    simp

theorem isSettled_separated {between : String} (joint : IsSettled called [.mark between])
    {runs : List (List Token)} (h : ∀ run ∈ runs, IsSettled called run) :
    IsSettled called (Token.separated between runs) := by
  unfold Token.separated
  induction runs with
  | nil => exact isSettled_nil
  | cons run runs ih =>
    obtain ⟨first, rest⟩ := List.forall_mem_cons.1 h
    cases runs with
    | nil => rwa [List.intercalate_singleton]
    | cons other runs =>
      rw [List.intercalate_cons_cons]
      exact (first.append joint).append (ih rest)

theorem isSettled_comparison (x y : String) : IsSettled called (Assertion.comparison x y) := by
  refine ⟨?_, fun name => ?_⟩
  · show CallsOnly called ([.mark '(', .mark '(', .word x] ++ [.mark ')', .mark '!', .mark '=',
      .mark '(', .word y] ++ [.mark ')', .mark ')'])
    simp [CallsOnly]
  · show ([.mark '(', .mark '(', .word x, .mark ')', .mark '!', .mark '=', .mark '(', .word y,
      .mark ')', .mark ')'] : List Symbol).getLast? ≠ _
    simp

/-- A name applied to something is a call of the name. -/
theorem isSettled_apply {callee : String} (h : called callee)
    (inner : CallsOnly called (ts.flatMap ofToken)) :
    IsSettled called ([.word callee, .mark "("] ++ ts ++ [.mark ")"]) := by
  have symbols : (([.word callee, .mark "("] ++ ts ++ [.mark ")"] : List Token).flatMap ofToken) =
      (.word callee :: .mark '(' :: ts.flatMap ofToken) ++ [.mark ')'] := by
    rw [List.flatMap_append, List.flatMap_append]
    rfl
  constructor
  · rw [symbols]
    refine CallsOnly.append_of_head? ?_ (.singleton _) (by simp)
    refine List.isChain_cons.2 ⟨fun _ _ name same _ => ?_, inner.cons_mark '('⟩
    obtain rfl := Symbol.word.inj same
    exact h
  · rw [symbols]
    exact endsApart_append_mark _ ')'

theorem not_mem_word (name : String) : .mark '(' ∉ ofToken (.word name) := by
  simp [ofToken]

theorem not_mem_mark {text : String} (h : '(' ∉ text.toList) :
    .mark '(' ∉ ofToken (.mark text) := by
  intro member
  obtain ⟨c, inside, same⟩ := List.mem_map.1 member
  obtain rfl := Symbol.mark.inj same
  exact h (List.mem_of_mem_filter inside)

/-- Without parentheses nothing is called. -/
theorem callsOnly_of_forall (h : ∀ t ∈ ts, .mark '(' ∉ ofToken t) :
    CallsOnly called (ts.flatMap ofToken) := by
  apply callsOnly_of_not_mem
  intro member
  obtain ⟨t, inside, opened⟩ := List.mem_flatMap.1 member
  exact h t inside opened

theorem mem_intercalate {α : Type} {x : α} {between : List α} {runs : List (List α)}
    (h : x ∈ between.intercalate runs) : x ∈ between ∨ ∃ run ∈ runs, x ∈ run := by
  induction runs with
  | nil => exact absurd h List.not_mem_nil
  | cons run runs ih =>
    cases runs with
    | nil => exact .inr ⟨run, List.mem_cons_self, by rwa [List.intercalate_singleton] at h⟩
    | cons other runs =>
      rw [List.intercalate_cons_cons, List.mem_append, List.mem_append] at h
      rcases h with (own | between) | later
      · exact .inr ⟨run, List.mem_cons_self, own⟩
      · exact .inl between
      · apply (ih later).imp_right
        rintro ⟨run', member, inside⟩
        exact ⟨run', List.mem_cons_of_mem _ member, inside⟩

theorem mem_separated {between : String} {runs : List (List Token)} {t : Token}
    (h : t ∈ Token.separated between runs) : t = .mark between ∨ ∃ run ∈ runs, t ∈ run :=
  (mem_intercalate h).imp_left List.mem_singleton.1

theorem isSettled_call {call : Call} (h : called call.callee) : IsSettled called call.tokens := by
  refine isSettled_apply h (callsOnly_of_forall fun t member => ?_)
  rcases mem_separated member with rfl | ⟨run, inside, own⟩
  · exact not_mem_mark (by decide)
  · obtain ⟨x, -, rfl⟩ := List.mem_map.1 inside
    rw [List.mem_singleton.1 own]
    exact not_mem_word x

theorem isSettled_assertion (h : called assertWord) (a : Assertion) {condition : List Token}
    (settled : IsSettled called condition) (values : Bindings) :
    IsSettled called (a.tokens condition values) := by
  have quiet : ∀ t ∈ (a.message.stringTokens values).map Token.message, .mark '(' ∉ ofToken t := by
    intro t member
    obtain ⟨token, -, rfl⟩ := List.mem_map.1 member
    cases token <;> simp [ofToken]
  have comma : IsSettled called [.mark ","] :=
    isSettled_mark (show ofToken (.mark ",") = [.mark ','] from rfl)
  have inner : CallsOnly called ((condition ++ [Token.mark ","] ++
      (a.message.stringTokens values).map Token.message).flatMap ofToken) := by
    rw [List.flatMap_append]
    have opened := settled.append comma
    exact opened.calls.append (callsOnly_of_forall quiet) opened.ends
  have applied := isSettled_apply h inner
  simpa [Assertion.tokens] using applied

theorem isSettled_pair (h : called assertWord) (a : Assertion) (x y : String) :
    IsSettled called (a.pairTokens x y) := by
  rw [Assertion.pairTokens]
  cases a.extent with
  | once => exact isSettled_comparison x y
  | all => exact isSettled_assertion h a (isSettled_comparison x y) _

theorem isSettled_joint (a : Assertion) : IsSettled called [.mark a.joint] := by
  rw [Assertion.joint]
  cases a.extent with
  | once => exact isSettled_mark (show ofToken (.mark "*") = [.mark '*'] from rfl)
  | all => exact isSettled_mark (show ofToken (.mark ";") = [.mark ';'] from rfl)

/-! ### Bodies -/

theorem callsOnly_comparisons (h : called assertWord) (a : Assertion) (names : List String) :
    CallsOnly called (((Body.comparisons names).tokens a).flatMap ofToken) := by
  refine (isSettled_separated (isSettled_joint a) fun run member => ?_).calls
  obtain ⟨p, -, rfl⟩ := List.mem_map.1 member
  exact isSettled_pair h a p.1 p.2

theorem callsOnly_calls (a : Assertion) {group : List Call} (h : ∀ c ∈ group, called c.callee) :
    CallsOnly called (((Body.calls group).tokens a).flatMap ofToken) := by
  refine (isSettled_separated (isSettled_joint a) fun run member => ?_).calls
  obtain ⟨c, inside, rfl⟩ := List.mem_map.1 member
  exact isSettled_call (h c inside)

theorem callsOnly_declaration (h : called assertWord) (a : Assertion) (d : Declaration)
    (check : ∀ c ∈ d.check, called c.callee) :
    CallsOnly called (((Body.declaration d).tokens a).flatMap ofToken) := by
  have declared : ∀ t ∈ d.enumTokens, .mark '(' ∉ ofToken t := by
    intro t member
    simp only [Declaration.enumTokens, List.mem_append, List.mem_cons, List.not_mem_nil,
      or_false] at member
    rcases member with ((rfl | rfl | rfl | rfl) | listed) | rfl | rfl
    · exact not_mem_word _
    · exact not_mem_mark (by decide)
    · exact not_mem_word _
    · exact not_mem_mark (by decide)
    · rcases mem_separated listed with rfl | ⟨run, inside, own⟩
      · exact not_mem_mark (by decide)
      · obtain ⟨e, -, rfl⟩ := List.mem_map.1 inside
        simp only [List.mem_cons, List.not_mem_nil, or_false] at own
        rcases own with rfl | rfl | rfl
        · exact not_mem_word _
        · exact not_mem_mark (by decide)
        · exact not_mem_word _
    · exact not_mem_mark (by decide)
    · exact not_mem_word _
  have checked : CallsOnly called ((d.checkTokens a).flatMap ofToken) ∧
      ((d.checkTokens a).flatMap ofToken).head? ≠ some (.mark '(') := by
    rw [Declaration.checkTokens]
    cases found : d.check with
    | none => exact ⟨callsOnly_nil, by simp⟩
    | some call =>
      have settled := isSettled_call (check call found)
      refine ⟨?_, by simp [ofToken, marks]⟩
      rw [List.flatMap_cons]
      refine CallsOnly.cons_mark ?_ ';'
      cases a.extent with
      | all => exact settled.calls
      | once => exact (isSettled_assertion h a settled _).calls
  rw [Body.tokens, List.flatMap_append]
  exact (callsOnly_of_forall declared).append_of_head? checked.1 checked.2

/-- A body calls nothing but what it is made to call, and the assertion. -/
theorem callsOnly_body (a : Assertion) (b : Body) :
    CallsOnly (fun name => name = assertWord ∨ ∃ call ∈ b.called, call.callee = name)
      ((b.tokens a).flatMap ofToken) := by
  cases b with
  | comparisons names => exact callsOnly_comparisons (.inl rfl) a names
  | calls group => exact callsOnly_calls a fun call member => .inr ⟨call, member, rfl⟩
  | declaration d =>
    refine callsOnly_declaration (.inl rfl) a d fun call member => .inr ⟨call, ?_, rfl⟩
    exact Option.mem_toList.2 member

end EnumMacros.Preprocessor
