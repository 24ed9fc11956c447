import EnumMacros.Proofs.Definition.Reading
import EnumMacros.Proofs.Preprocessor.Checks

/-! What a check comes to. Expanded completely, it compares every two of its arguments and nothing
else, whichever form each of the smaller checks has that it calls on the way. -/

namespace EnumMacros

open Identifier (IsWord)
open Preprocessor

/-! ### Arguments -/

/-- No word is left but the one that opens an assertion. -/
def OnlyAsserts (symbols : List Symbol) : Prop := ∀ name, .word name ∈ symbols → name = assertWord

/-- Every parameter stands for what the outermost call has at some place, and no other name stands
for anything. -/
structure Assigns (params : List String) (argument? : String → Option (List Symbol))
    (place : String → Nat) : Prop where
  given : ∀ p ∈ params, argument? p = some [.argument (place p)]
  other : ∀ q, q ∉ params → argument? q = none

theorem exists_assigns {params : List String} (nodup : params.Nodup) {places : List Nat}
    (length : places.length = params.length) :
    ∃ place, params.map place = places ∧
      Assigns params (fun name =>
        (params.zip (places.map fun place => [.argument place])).lookup name) place := by
  induction params generalizing places with
  | nil =>
    obtain rfl : places = [] := List.length_eq_zero_iff.1 length
    exact ⟨fun _ => 0, rfl, fun _ h => absurd h List.not_mem_nil, fun _ _ => rfl⟩
  | cons p ps ih =>
    match places, length with
    | q :: qs, length =>
      obtain ⟨absent, rest⟩ := List.nodup_cons.1 nodup
      obtain ⟨place, located, assigns⟩ := ih rest (Nat.succ.inj length)
      refine ⟨fun x => if x = p then q else place x, ?_, fun x member => ?_, fun x outside => ?_⟩
      · rw [List.map_cons, if_pos rfl, ← located]
        refine congrArg _ (List.map_congr_left fun x member => if_neg ?_)
        rintro rfl
        exact absent member
      · simp only [List.map_cons, List.zip_cons_cons, List.lookup_cons]
        by_cases same : x = p
        · simp [same]
        · have later := (List.mem_cons.1 member).resolve_left same
          simp only [beq_eq_false_iff_ne.2 same, if_neg same]
          exact assigns.given x later
      · obtain ⟨different, outside⟩ := not_or.1 fun h => outside (List.mem_cons.2 h)
        simp only [List.map_cons, List.zip_cons_cons, List.lookup_cons,
          beq_eq_false_iff_ne.2 different]
        exact assigns.other x outside

namespace Assigns

variable {params : List String} {argument? : String → Option (List Symbol)}
  {place : String → Nat}

theorem comparison (h : Assigns params argument? place) {x y : String} (hx : x ∈ params)
    (hy : y ∈ params) :
    (Assertion.comparison x y).flatMap (replaced argument?) =
      comparisonSymbols (place x) (place y) := by
  simp only [Assertion.comparison, List.flatMap_cons, List.flatMap_nil, replaced, h.given x hx,
    h.given y hy, Option.getD_some]
  rfl

/-- A message comes to string literals. -/
theorem isString_message (h : Assigns params argument? place) {quoted : String → Prop}
    (inside : ∀ name, quoted name → name ∈ params) {tokens : List Text.CLiteral.Token}
    (message : ∀ token ∈ tokens, IsMessageToken quoted token) :
    ∀ s ∈ (tokens.map Token.message).flatMap (replaced argument?), s.isString = true := by
  intro s member
  rw [List.flatMap_map] at member
  obtain ⟨token, found, has⟩ := List.mem_flatMap.1 member
  match token with
  | .literal content =>
    obtain rfl := List.mem_singleton.1 has
    rfl
  | .quoted name =>
    rw [replaced, h.given name (inside name (message _ found))] at has
    obtain rfl := List.mem_singleton.1 has
    rfl

theorem message_ne_nil (argument? : String → Option (List Symbol))
    {tokens : List Text.CLiteral.Token} (nonempty : tokens ≠ []) :
    (tokens.map Token.message).flatMap (replaced argument?) ≠ [] := by
  obtain ⟨token, tokens, rfl⟩ := List.exists_cons_of_ne_nil nonempty
  rw [List.map_cons, List.flatMap_cons]
  refine List.append_ne_nil_of_left_ne_nil ?_ _
  match token with
  | .literal content => exact List.cons_ne_nil _ _
  | .quoted name =>
    rw [replaced]
    split <;> exact List.cons_ne_nil _ _

/-- The check of a pair of parameters is one of their arguments. -/
theorem pair (h : Assigns params argument? place) (outside : assertWord ∉ params) (a : Assertion)
    {x y : String} (hx : x ∈ params) (hy : y ∈ params) :
    IsPiece a.extent (place x, place y) ((a.pairTokens x y).flatMap (replaced argument?)) ∧
      OnlyAsserts ((a.pairTokens x y).flatMap (replaced argument?)) := by
  have compared := h.comparison hx hy
  rw [Assertion.pairTokens]
  cases extent : a.extent with
  | once =>
    simp only [compared]
    refine ⟨⟨rfl, ?_⟩, ?_⟩
    · exact closed_comparisonSymbols .once _ _
    · simp [OnlyAsserts, comparisonSymbols]
  | all =>
    have quoted : ∀ token ∈ a.message.stringTokens (Assertion.pairValues x y),
        IsMessageToken (· ∈ params) token := by
      apply isMessageToken_of_mem_stringTokens
      intro reference name found
      rcases lookup_pairValues found with rfl | rfl
      · exact hx
      · exact hy
    have strings := h.isString_message (fun _ member => member) quoted
    have nonempty := message_ne_nil argument?
      (stringTokens_ne_nil a.message (Assertion.pairValues x y))
    simp only [replaced_assertion (h.other _ outside), compared]
    generalize ((a.message.stringTokens (Assertion.pairValues x y)).map
      Token.message).flatMap (replaced argument?) = message at strings nonempty
    refine ⟨⟨assertionOf?_symbols (isMessage_strings nonempty strings), ?_⟩,
      fun name member => ?_⟩
    · simp only [List.forall_mem_cons, List.forall_mem_append]
      refine ⟨rfl, rfl, closed_comparisonSymbols .all _ _, rfl, fun s string => ?_, rfl, ?_⟩
      · exact isMark_of_isString (strings s string) _
      · exact fun _ none => absurd none List.not_mem_nil
    · by_cases string : .word name ∈ message
      · exact absurd (strings _ string) Bool.false_ne_true
      · simpa [comparisonSymbols, string] using member

/-- A smaller check is called with the arguments of the parameters. -/
theorem call (h : Assigns params argument? place) {c : Call} (callee : c.callee ∉ params)
    (inside : ∀ x ∈ c.arguments, x ∈ params) :
    c.tokens.flatMap (replaced argument?) = callSymbols c.callee (c.arguments.map place) := by
  have arguments : (c.arguments.map fun x => (argument? x).getD [.word x]) =
      (c.arguments.map place).map fun place => [.argument place] := by
    rw [List.map_map]
    apply List.map_congr_left
    intro x member
    simp [h.given x (inside x member)]
  rw [replaced_call (h.other _ callee), arguments, callSymbols]

end Assigns

/-! ### Expanding checks -/

theorem replaced_joint (argument? : String → Option (List Symbol)) (a : Assertion) :
    replaced argument? (.mark a.joint) = [.mark (jointMark a.extent)] := by
  rw [replaced, Assertion.joint]
  cases a.extent <;> rfl

/-- The symbols expand to checks of exactly the pairs with a property, and no macro is left in
them. -/
def ExpandsTo (table : List Line) (extent : AssertExtent) (symbols : List Symbol)
    (compared : Nat × Nat → Prop) : Prop :=
  ∃ expansion ps, Expands table symbols expansion ∧ Checks extent ps expansion ∧
    OnlyAsserts expansion ∧ ∀ p, p ∈ ps ↔ compared p

theorem ExpandsTo.congr {table : List Line} {extent : AssertExtent} {symbols : List Symbol}
    {compared compared' : Nat × Nat → Prop} (h : ExpandsTo table extent symbols compared)
    (same : ∀ p, compared p ↔ compared' p) : ExpandsTo table extent symbols compared' := by
  obtain ⟨expansion, ps, expands, checks, only, pairs⟩ := h
  exact ⟨expansion, ps, expands, checks, only, fun p => (pairs p).trans (same p)⟩

theorem inert_of_onlyAsserts {table : List Line} (h : ∀ line ∈ table, line.name ≠ assertWord)
    {symbols : List Symbol} (only : OnlyAsserts symbols) : Inert table symbols := by
  intro name member line inside
  rw [only name member]
  exact h line inside

/-- Checks with joints between them expand one by one. -/
theorem expandsTo_intercalate {ι : Type} {table : List Line} {extent : AssertExtent}
    (named : ∀ line ∈ table, line.name ≠ assertWord) {symbols : ι → List Symbol}
    {compared : ι → Nat × Nat → Prop} {is : List ι} (nonempty : is ≠ [])
    (each : ∀ i ∈ is, ExpandsTo table extent (symbols i) (compared i)) :
    ExpandsTo table extent ([Symbol.mark (jointMark extent)].intercalate (is.map symbols))
      fun p => ∃ i ∈ is, compared i p := by
  induction is with
  | nil => exact absurd rfl nonempty
  | cons i is ih =>
    obtain ⟨first, rest⟩ := List.forall_mem_cons.1 each
    obtain ⟨expansion, ps, expands, checks, only, pairs⟩ := first
    cases is with
    | nil =>
      refine ⟨expansion, ps, ?_, checks, only, fun p => ?_⟩
      · simpa using expands
      · simpa using pairs p
    | cons j is =>
      obtain ⟨expansion', ps', expands', checks', only', pairs'⟩ := ih (List.cons_ne_nil _ _) rest
      have joint : callAt? table (.mark (jointMark extent) ::
          [Symbol.mark (jointMark extent)].intercalate ((j :: is).map symbols)) = none := rfl
      refine ⟨_, ps ++ ps', ?_, checks.append checks', fun name member => ?_, fun p => ?_⟩
      · rw [List.map_cons, List.map_cons, List.intercalate_cons_cons, ← List.map_cons,
          List.append_assoc]
        exact expands.append (.keep joint expands') (inert_of_onlyAsserts named only)
      · rcases List.mem_append.1 member with left | right
        · exact only name left
        · exact only' name (by simpa using right)
      · rw [List.mem_append, pairs, pairs']
        simp

/-! ### Definitions of all sizes -/

/-- Lines for the checks of the sizes from two up to `size`, each written after any requests. -/
structure Style.PrintsAll (style : Style) (size : Nat) (line : Nat → Line) : Prop where
  accepted : style.IsAccepted
  refers : "n" ∈ style.distinctName.references
  small : size < sizeLimit
  prints : ∀ m, 2 ≤ m → m ≤ size → style.Prints .distinct m (line m)

/-- The lines for the sizes from two up to `size`. -/
def linesUpTo (line : Nat → Line) (size : Nat) : List Line := (List.range' 2 (size - 1)).map line

namespace Style.PrintsAll

variable {style : Style} {size : Nat} {line : Nat → Line}

theorem isCheck (h : style.PrintsAll size line) {m : Nat} (least : 2 ≤ m) (most : m ≤ size) :
    ∃ d : Definition, d.IsCheck style m ∧ line m = d.line style.assertion :=
  (h.prints m least most).isCheck (most.trans_lt h.small)

theorem name_line (h : style.PrintsAll size line) {m : Nat} (least : 2 ≤ m) (most : m ≤ size) :
    (line m).name = style.macroName .distinct m := by
  obtain ⟨d, check, same⟩ := h.isCheck least most
  rw [same]
  exact check.name

theorem mem_linesUpTo {l : Line} :
    l ∈ linesUpTo line size ↔ ∃ m, 2 ≤ m ∧ m ≤ size ∧ line m = l := by
  simp only [linesUpTo, List.mem_map, List.mem_range'_1]
  constructor
  · rintro ⟨m, bounds, rfl⟩
    exact ⟨m, by omega, by omega, rfl⟩
  · rintro ⟨m, least, most, rfl⟩
    exact ⟨m, by omega, rfl⟩

theorem macroName_injective (h : style.PrintsAll size line) {m m' : Nat}
    (same : style.macroName .distinct m = style.macroName .distinct m') : m = m' :=
  h.accepted.macroName_injective .distinct h.refers same

/-- A check is looked up by its name. -/
theorem find?_line (h : style.PrintsAll size line) {m : Nat} (least : 2 ≤ m) (most : m ≤ size) :
    (linesUpTo line size).find? (·.name == style.macroName .distinct m) = some (line m) := by
  have member : line m ∈ linesUpTo line size := mem_linesUpTo.2 ⟨m, least, most, rfl⟩
  match found : (linesUpTo line size).find? (·.name == style.macroName .distinct m) with
  | none =>
    have unnamed := List.find?_eq_none.1 found _ member
    simp [h.name_line least most] at unnamed
  | some l =>
    have named := List.find?_some found
    obtain ⟨m', least', most', rfl⟩ := mem_linesUpTo.1 (List.mem_of_find?_eq_some found)
    rw [beq_iff_eq, h.name_line least' most'] at named
    rw [found, h.macroName_injective named]

theorem name_ne_assertWord (h : style.PrintsAll size line) :
    ∀ l ∈ linesUpTo line size, l.name ≠ assertWord := by
  intro l member
  obtain ⟨m, least, most, rfl⟩ := mem_linesUpTo.1 member
  rw [h.name_line least most]
  exact h.accepted.macroName_ne_assertWord h.refers m

/-- What a call of a check stands for, in the symbols of its tokens. -/
theorem callAt?_check (h : style.PrintsAll size line) {m : Nat} (least : 2 ≤ m) (most : m ≤ size)
    {d : Definition} (check : d.IsCheck style m) (same : line m = d.line style.assertion)
    (readable : Readable (d.body.tokens style.assertion)) {places : List Nat}
    (length : places.length = m) :
    callAt? (linesUpTo line size) (callSymbols (style.macroName .distinct m) places) =
      some ((d.body.tokens style.assertion).flatMap (replaced fun name =>
        (d.params.zip (places.map fun place => [.argument place])).lookup name), []) := by
  have nonempty : places ≠ [] := List.ne_nil_of_length_pos (by omega)
  apply callAt?_callSymbols (h.find?_line least most) nonempty
  rw [same, instantiate?, if_pos (by simp [Definition.line, length, check.length])]
  simp only [Definition.line, Body.text, symbols_textOf readable,
    substitute_tokens readable.written]

/-- A body that compares every pair of parameters. -/
theorem expandsTo_comparisons (h : style.PrintsAll size line) {params : List String}
    {argument? : String → Option (List Symbol)} {place : String → Nat}
    (assigns : Assigns params argument? place) (outside : assertWord ∉ params)
    (several : 2 ≤ params.length) :
    ExpandsTo (linesUpTo line size) style.assertion.extent
      (((Body.comparisons params).tokens style.assertion).flatMap (replaced argument?))
      (· ∈ pairs (params.map place)) := by
  have nonempty : pairs params ≠ [] := by
    match params, several with
    | x :: y :: params, _ => exact List.cons_ne_nil _ _
  have each : ∀ p ∈ pairs params, ExpandsTo (linesUpTo line size) style.assertion.extent
      ((style.assertion.pairTokens p.1 p.2).flatMap (replaced argument?))
      (· = (place p.1, place p.2)) := by
    intro p member
    obtain ⟨first, second⟩ := mem_of_mem_pairs member
    obtain ⟨piece, only⟩ := assigns.pair outside style.assertion first second
    refine ⟨_, [(place p.1, place p.2)], .of_inert ?_, .one piece, only, fun q => ?_⟩
    · exact inert_of_onlyAsserts h.name_ne_assertWord only
    · exact List.mem_singleton
  rw [Body.tokens, flatMap_separated, replaced_joint, List.map_map, pairs_map]
  apply (expandsTo_intercalate h.name_ne_assertWord nonempty each).congr
  intro p
  simp only [List.mem_map, Prod.map, eq_comm]

/-- A body that calls smaller checks on its parts. -/
theorem expandsTo_calls (h : style.PrintsAll size line) {params : List String}
    {argument? : String → Option (List Symbol)} {place : String → Nat}
    (assigns : Assigns params argument? place)
    (apart : ∀ call ∈ style.partCalls params, call.callee ∉ params)
    (each : ∀ call ∈ style.partCalls params, ExpandsTo (linesUpTo line size) style.assertion.extent
      (callSymbols call.callee (call.arguments.map place)) (· ∈ pairs (call.arguments.map place))) :
    ExpandsTo (linesUpTo line size) style.assertion.extent
      (((Body.calls (style.partCalls params)).tokens style.assertion).flatMap (replaced argument?))
      (· ∈ pairs (params.map place)) := by
  have called : ∀ call ∈ style.partCalls params, call.tokens.flatMap (replaced argument?) =
      callSymbols call.callee (call.arguments.map place) := by
    intro call member
    obtain ⟨-, -, -, -, inside⟩ := Style.mem_partCalls member
    exact assigns.call (apart call member) inside
  have nonempty : style.partCalls params ≠ [] := List.cons_ne_nil _ _
  have expanded : ∀ call ∈ style.partCalls params, ExpandsTo (linesUpTo line size)
      style.assertion.extent (call.tokens.flatMap (replaced argument?))
      (· ∈ pairs (call.arguments.map place)) := by
    intro call member
    rw [called call member]
    exact each call member
  rw [Body.tokens, flatMap_separated, replaced_joint, List.map_map]
  apply (expandsTo_intercalate h.name_ne_assertWord nonempty expanded).congr
  intro p
  rw [mem_pairs_iff_parts, List.length_map]
  simp only [Style.partCalls, List.mem_map, exists_exists_and_eq_and, List.map_append,
    Run.members_map]

/-- A call of a check expands to checks of every two of its arguments. -/
theorem expandsTo_call (h : style.PrintsAll size line) {m : Nat} (least : 2 ≤ m) (most : m ≤ size)
    {places : List Nat} (length : places.length = m) :
    ExpandsTo (linesUpTo line size) style.assertion.extent
      (callSymbols (style.macroName .distinct m) places) (· ∈ pairs places) := by
  induction m using Nat.strongRecOn generalizing places with
  | ind m ih =>
    obtain ⟨d, check, same⟩ := h.isCheck least most
    obtain ⟨place, located, assigns⟩ := exists_assigns check.params.nodup
      (length.trans check.length.symm)
    have outside : assertWord ∉ d.params := fun member => (check.params.words _ member).2 rfl
    have readable := check.readable h.accepted
    have body : ExpandsTo (linesUpTo line size) style.assertion.extent
        ((d.body.tokens style.assertion).flatMap (replaced fun name =>
          (d.params.zip (places.map fun place => [.argument place])).lookup name))
        (· ∈ pairs places) := by
      rw [← located] at *
      rcases check.body with compared | ⟨large, called, apart⟩
      · rw [compared]
        exact h.expandsTo_comparisons assigns outside (least.trans check.length.ge)
      · rw [called]
        apply h.expandsTo_calls assigns apart
        intro call member
        obtain ⟨m', callee, arguments, bounds, -⟩ := Style.mem_partCalls member
        rw [check.length] at bounds
        rw [callee]
        exact ih m' (by omega) (by omega) (by omega) ((List.length_map _).trans arguments)
    obtain ⟨expansion, ps, expands, checks, only, pairs⟩ := body
    have called := h.callAt?_check least most check same readable length
    refine ⟨expansion, ps, .call called ?_, checks, only, pairs⟩
    rwa [List.append_nil]

end Style.PrintsAll

namespace Style

/-- A check compares every two of its arguments. Its parameters suffice for any size within bounds;
and whatever the composers of the smaller checks have been asked before, its call has exactly one
complete expansion, no check is left in it, and the pairs compared there are all pairs of places.
The product of the comparisons is zero, or some assertion fails, just where two arguments are
equal. -/
theorem expansion_compares_all_pairs (style : Style) (accepted : style.IsAccepted)
    (refers : "n" ∈ style.distinctName.references) (size : Nat) (least : 2 ≤ size)
    (small : size < sizeLimit) :
    (∀ c, Composer.Reached style c → ∀ m, 2 ≤ m → m ≤ size →
      ∃ line, (c.defineLine .distinct m).1 = some line) ∧
    ∀ line : Nat → Line, (∀ m, 2 ≤ m → m ≤ size → style.Prints .distinct m (line m)) →
      ∃ expansion,
        (∀ done, Expands (linesUpTo line size)
          (callSymbols (style.macroName .distinct size) (List.range size)) done ↔
            done = expansion) ∧
        (∀ m, .word (style.macroName .distinct m) ∉ expansion) ∧
        (∃ ps, checksOf? style.assertion.extent expansion = some ps ∧
          ∀ i j, (i, j) ∈ ps ↔ i < j ∧ j < size) ∧
        (style.assertion.extent = .once → ∀ values, ∃ v,
          productValue? values expansion = some v ∧
            (v ≠ 0 ↔ ∀ i j, i < j → j < size → values i ≠ values j)) ∧
        (style.assertion.extent = .all → ∀ values, ∃ vs,
          conditionValues? values expansion = some vs ∧
            ((∀ v ∈ vs, v ≠ 0) ↔ ∀ i j, i < j → j < size → values i ≠ values j)) := by
  refine ⟨fun c reached m least most => exists_prints reached least (most.trans_lt small),
    fun line prints => ?_⟩
  have all : style.PrintsAll size line := ⟨accepted, refers, small, prints⟩
  obtain ⟨expansion, ps, expands, checks, only, pairs⟩ :=
    all.expandsTo_call least (le_refl size) List.length_range
  have read := checks.checksOf?_eq
  have distinct (values : Nat → Int) : (∀ p ∈ ps, values p.1 ≠ values p.2) ↔
      ∀ i j, i < j → j < size → values i ≠ values j := by
    simp only [pairs, Prod.forall, mem_pairs_range, and_imp]
  refine ⟨expansion, fun done => ⟨fun other => other.unique expands, fun same => same ▸ expands⟩,
    fun m member => accepted.macroName_ne_assertWord refers m (only _ member),
    ⟨ps, read, fun i j => (pairs (i, j)).trans mem_pairs_range⟩, fun extent values => ?_,
    fun extent values => ?_⟩
  · rw [extent] at read
    refine ⟨_, by rw [productValue?, read, Option.map_some], ?_⟩
    rw [prod_comparisonValue_ne_zero_iff, distinct]
  · rw [extent] at read
    refine ⟨_, by rw [conditionValues?, read, Option.map_some], ?_⟩
    rw [List.forall_mem_map, ← distinct values]
    exact forall₂_congr fun p _ => comparisonValue_ne_zero_iff

/-- Four arguments are compared by way of two smaller checks, one of which compares three of them
directly. -/
theorem expansion_compares_four :
    let line : Nat → Line := fun
      | 2 => ⟨"areuniq2", ["a", "b"], "((a)!=(b))"⟩
      | 3 => ⟨"areuniq3", ["a", "b", "c"], "((a)!=(b))*((a)!=(c))*((b)!=(c))"⟩
      | _ => ⟨"areuniq4", ["a", "b", "c", "d"], "areuniq3(a,b,c)*areuniq3(a,b,d)*areuniq2(c,d)"⟩
    ∃ expansion, Expands (linesUpTo line 4) (callSymbols "areuniq4" (List.range 4)) expansion ∧
      ∃ ps, checksOf? .once expansion = some ps ∧ ∀ i j, (i, j) ∈ ps ↔ i < j ∧ j < 4 := by
  intro line
  have prints : ∀ m, 2 ≤ m → m ≤ 4 → standard.Prints .distinct m (line m) := by
    intro m least most
    obtain rfl | rfl | rfl : m = 2 ∨ m = 3 ∨ m = 4 := by omega
    all_goals exact ⟨_, .start, by decide +kernel⟩
  obtain ⟨-, all⟩ := expansion_compares_all_pairs standard isAccepted_standard (by decide) 4
    (by decide) (by decide)
  obtain ⟨expansion, expands, -, pairs, -⟩ := all line prints
  have named : standard.macroName .distinct 4 = "areuniq4" := by decide +kernel
  rw [named] at expands
  exact ⟨expansion, (expands expansion).2 rfl, pairs⟩

end Style

end EnumMacros
