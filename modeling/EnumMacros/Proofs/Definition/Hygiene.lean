import EnumMacros.Proofs.Definition.Declaring
import EnumMacros.Proofs.Definition.Growing

/-! The parameters of a definition. They are drawn from a scope that leaves out the names that the
body uses, so that the preprocessor takes none of them for anything else: `define_hygienic`. The
word `enum` is left out only where an enum is declared; a check that is large enough has a parameter
of that name, as long as keywords may be parameters. -/

namespace EnumMacros

open Identifier (IsName Scope compareNames freeRaw isName_spell spell)
open Preprocessor

namespace Style

variable {style : Style} {family : Family} {n : Nat} {line : Line}

/-! ### Where parameters come from -/

/-- The scope that the parameters of a macro come from. -/
def scope (s : Style) (family : Family) (n : Nat) : Scope :=
  .of (Composer.start s).names
    (match family with
    | .distinct => s.checkNames n
    | .enum => s.enumNames n)

/-- The number of places in its scope that a macro may use. -/
def places (family : Family) (n : Nat) : Nat :=
  match family with
  | .distinct => n
  | .enum => 2 * n + 3

theorem serves_scope (s : Style) (family : Family) (small : n < sizeLimit) :
    (s.scope family n).Serves (places family n) := by
  cases family with
  | distinct => exact Scope.serves_of _ _ (Composer.room_checkNames s small)
  | enum => exact Scope.serves_of _ _ (Composer.room_enumNames s small)

/-- The parameters of the macro of a family and a size. -/
def params (s : Style) (family : Family) (n : Nat) : List String :=
  match family with
  | .distinct => s.checkParams n
  | .enum => (s.enumMacro n).params

theorem exists_place {p : String} (member : p ∈ style.params family n) :
    ∃ i < places family n, (style.scope family n).nameAt style.reserved i = p := by
  cases family with
  | distinct =>
    obtain ⟨i, small, same⟩ := List.mem_map.1 member
    exact ⟨i, List.mem_range.1 small, same⟩
  | enum =>
    obtain ⟨i, inside, same⟩ :=
      List.mem_map.1 ((Composer.perm_enumParams style n).mem_iff.1 member)
    refine ⟨i, ?_, same⟩
    simp only [List.mem_append, List.mem_range, List.mem_range'_1, List.mem_cons, List.not_mem_nil,
      or_false] at inside
    rw [places]
    omega

theorem length_params (style : Style) (family : Family) (n : Nat) :
    (style.params family n).length =
      match family with
      | .distinct => n
      | .enum => 2 * n + 2 := by
  cases family with
  | distinct => exact Composer.length_checkParams style n
  | enum =>
    rw [params, (Composer.perm_enumParams style n).length_eq]
    simp only [List.length_map, List.length_append, List.length_range, List.length_range',
      List.length_cons, List.length_nil]
    omega

theorem pairwise_checkParams (style : Style) (small : n < sizeLimit) :
    (style.checkParams n).Pairwise fun p q => compareNames p q = .lt := by
  have serves := style.serves_scope .distinct small
  refine List.pairwise_map.2 (List.pairwise_lt_range.imp_of_mem fun _ inside lt => ?_)
  exact Scope.compareNames_nameAt serves lt (List.mem_range.1 inside)

/-- A line has the parameters of its macro, whatever has been asked for before. -/
theorem Prints.params_eq (h : style.Prints family n line) (small : n < sizeLimit) :
    line.params = style.params family n := by
  have least := h.least
  obtain ⟨c, reached, printed⟩ := h
  rw [Composer.defineLine, Composer.define.eq_def, if_neg (Nat.not_lt.2 least)] at printed
  cases family with
  | distinct =>
    simp only [(reached.steady.distinct_eq small).1, Option.map_some, Option.some.injEq] at printed
    rw [← printed]
    rfl
  | enum =>
    simp only [reached.steady.enum_eq small, Option.map_some, Option.some.injEq] at printed
    rw [← printed]
    rfl

theorem Prints.nodup_params (h : style.Prints family n line) (small : n < sizeLimit) :
    line.params.Nodup := by
  cases family with
  | distinct =>
    obtain ⟨d, check, rfl⟩ := h.isCheck small
    exact check.params.nodup
  | enum =>
    obtain ⟨d, declaration, declares, rfl⟩ := h.isDeclaration small
    exact declares.params.nodup

/-! ### The names of a body -/

theorem Prints.not_mem_of_calls (h : style.Prints family n line) (small : n < sizeLimit)
    (accepted : style.IsAccepted) {name : String} (call : Calls (symbols line.body) name) :
    name ∉ line.params := by
  cases family with
  | distinct =>
    obtain ⟨d, check, rfl⟩ := h.isCheck small
    rcases Definition.exists_called_of_calls (check.readable accepted) call with
      rfl | ⟨callee, member, rfl⟩
    · exact fun inside => (check.params.words _ inside).2 rfl
    · rcases check.body with compared | ⟨-, divided, apart⟩
      · rw [compared] at member
        exact absurd member List.not_mem_nil
      · rw [divided] at member
        exact apart callee member
  | enum =>
    obtain ⟨d, declaration, declares, rfl⟩ := h.isDeclaration small
    apply declares.fixed
    rcases declares.calls accepted call with rfl | ⟨several, rfl⟩
    · exact List.mem_cons_self
    · simp [enumNames, several]

theorem Prints.not_mem_of_enum (h : style.Prints .enum n line) (small : n < sizeLimit) :
    enumWord ∉ line.params ∧ line.name ∉ line.params := by
  obtain ⟨d, declaration, declares, rfl⟩ := h.isDeclaration small
  have fixed := declares.fixed
  refine ⟨fixed _ (by simp [enumNames]), fixed _ ?_⟩
  rw [Definition.line, declares.name]
  simp [enumNames]

/-! ### The word of an enum -/

/-- The raw index of the word that declares an enum. -/
def enumRaw : Nat := 1262773

theorem spell_enumRaw : spell enumRaw = enumWord := by decide +kernel

theorem freeRaw_nil (i : Nat) : freeRaw [] i = i := rfl

theorem length_skips_le_one (constant : style.distinctName.references = []) (large : 3 ≤ n) :
    (style.scope .distinct n).skips.length ≤ 1 := by
  rw [scope, checkNames_of_references_eq_nil constant large, Scope.of]
  cases found : (Composer.start style).names.requestFor? (style.macroName .distinct 0) with
  | none =>
    rw [List.filterMap_replicate_of_none found]
    exact Nat.zero_le 1
  | some i =>
    rw [List.filterMap_replicate_of_some found]
    simp [Identifier.increasing, Identifier.enter]

/-- The names that a check calls are all the same, or their sizes are in them and they come up after
all its parameters. So the parameters step over one name at most. -/
theorem IsAccepted.le_of_advance? (accepted : style.IsAccepted) (large : 3 ≤ n) {i m : Nat}
    (inside : i < n) (reached : Scope.advance? (style.scope .distinct n).skips i = some m) :
    m ≤ n := by
  by_cases refers : style.distinctName.references = []
  · have single := length_skips_le_one refers large
    have steps := Scope.advance?_le reached
    omega
  · have later : ∀ skip ∈ (style.scope .distinct n).skips, i < skip := by
      intro skip member
      exact inside.trans_le (accepted.le_of_mem_skips refers large member)
    rw [Scope.advance?_of_forall_lt later] at reached
    obtain rfl := Option.some.inj reached
    exact inside.le

/-- Only a large check has a parameter named as the word, and only if keywords may be parameters. -/
theorem IsAccepted.of_enumWord_mem_checkParams (accepted : style.IsAccepted) (small : n < sizeLimit)
    (member : enumWord ∈ style.checkParams n) :
    style.avoidKeywords = false ∧ enumRaw ≤ n := by
  have serves := style.serves_scope .distinct small
  obtain ⟨i, inside, same⟩ :=
    exists_place (show enumWord ∈ style.params .distinct n from member)
  have allowed : style.avoidKeywords = false := by
    by_contra avoided
    have unreserved := Scope.nameAt_not_mem_words serves style.room_wordRaws inside
    rw [same, reserved, if_pos (eq_true_of_ne_false avoided)] at unreserved
    exact unreserved (by decide)
  refine ⟨allowed, ?_⟩
  obtain ⟨m, reached, -⟩ := serves.exists_advance? inside
  rw [Scope.nameAt, reached, reserved, allowed, if_neg Bool.false_ne_true, Option.getD_some,
    freeRaw_nil, ← spell_enumRaw] at same
  obtain rfl := Identifier.spell_injective same
  have large : 3 ≤ n := by
    have steps := Scope.advance?_le reached
    have skips := Scope.length_skips_of_le (Composer.start style).names (style.checkNames n)
    have few := Composer.length_checkNames_le style n
    rw [scope, enumRaw] at steps
    rw [places] at inside
    omega
  exact accepted.le_of_advance? large inside reached

/-! ### Hygiene -/

/-- The parameters of a line are as many distinct identifiers as its macro takes, and none of them
is a name that the body calls or a word that it is made of. -/
structure Hygienic (style : Style) (family : Family) (n : Nat) (line : Line) : Prop where
  names : ∀ p ∈ line.params, IsName p
  nodup : line.params.Nodup
  length : line.params.length =
    match family with
    | .distinct => n
    | .enum => 2 * n + 2
  ordered : family = .distinct → line.params.Pairwise fun p q => compareNames p q = .lt
  uncalled : ∀ name, Calls (symbols line.body) name → name ∉ line.params
  assertion : assertWord ∉ line.params
  enum : family = .enum → enumWord ∉ line.params ∧ line.name ∉ line.params
  keywords : style.avoidKeywords = true → ∀ p ∈ line.params, p ∉ Identifier.keywords
  large : enumWord ∈ line.params → style.avoidKeywords = false ∧ enumRaw ≤ n

/-- Every macro is defined whose size its family allows, whatever its composer has been asked for
before, and its parameters are hygienic. -/
theorem define_hygienic (style : Style) (accepted : style.IsAccepted) (family : Family) {n : Nat}
    (small : n < sizeLimit) :
    (∀ c, Composer.Reached style c → ((c.defineLine family n).1.isSome ↔ family.least ≤ n)) ∧
    ∀ line, style.Prints family n line → style.Hygienic family n line := by
  refine ⟨fun c reached => ⟨fun printed => ?_, fun least => ?_⟩, fun line prints => ?_⟩
  · obtain ⟨line, found⟩ := Option.isSome_iff_exists.1 printed
    exact Prints.least ⟨c, reached, found⟩
  · exact Option.isSome_iff_exists.2 (exists_prints reached least small)
  have params := prints.params_eq small
  have place : ∀ p ∈ line.params,
      ∃ i < places family n, (style.scope family n).nameAt style.reserved i = p := by
    rw [params]
    exact fun p => exists_place
  exact {
    names := by
      intro p member
      obtain ⟨i, -, rfl⟩ := place p member
      exact isName_spell _
    nodup := prints.nodup_params small
    length := by
      rw [params]
      exact length_params style family n
    ordered := by
      rintro rfl
      rw [params]
      exact pairwise_checkParams style small
    uncalled := fun name => prints.not_mem_of_calls small accepted
    assertion := by
      intro member
      obtain ⟨i, -, same⟩ := place _ member
      exact (Composer.word_nameAt style.reserved _ i).2 same
    enum := by
      rintro rfl
      exact prints.not_mem_of_enum small
    keywords := by
      intro avoided p member
      obtain ⟨i, inside, rfl⟩ := place p member
      have words : Identifier.keywords = style.reserved := (if_pos avoided).symm
      rw [words]
      exact Scope.nameAt_not_mem_words (style.serves_scope family small) style.room_wordRaws inside
    large := by
      intro member
      cases family with
      | distinct =>
        rw [params] at member
        exact accepted.of_enumWord_mem_checkParams small member
      | enum => exact absurd member (prints.not_mem_of_enum small).1 }

/-- The names of the macros are among the first identifiers. -/
theorem define_hygienic_of_letters :
    let style : Style :=
      { standard with
        distinctName := ⟨"a", [.literal "a"]⟩
        enumName := ⟨"b", [.literal "b"]⟩
        avoidKeywords := true }
    let line : Line := ⟨"b", ["h", "c", "e", "d", "f", "i"],
      "enum h\x7bc e,d f\x7di;_Static_assert(a(c,d),\"duplicate enum values: \"#h\" \"#i)"⟩
    (style.IsAccepted ∧ 2 < sizeLimit ∧ style.Prints .enum 2 line) ∧
      style.Hygienic .enum 2 line := by
  intro style line
  have accepted : style.IsAccepted :=
    ⟨"a", "b", _, _, _, _, true, rfl, Assertion.make_once, rfl⟩
  have prints : style.Prints .enum 2 line := ⟨_, .start, by decide +kernel⟩
  exact ⟨⟨accepted, by decide, prints⟩,
    (define_hygienic style accepted .enum (by decide)).2 line prints⟩

/-- Unless keywords are avoided, a check can have more parameters than there are identifiers before
the word. -/
theorem check_takes_enum_parameter :
    standard.IsAccepted ∧ 1262774 < sizeLimit ∧ ∃ line,
      (((Composer.start standard).afterAll [.define .distinct 4]).defineLine
        .distinct 1262774).1 = some line ∧ enumWord ∈ line.params := by
  have small : 1262774 < sizeLimit := by decide
  have least : Family.distinct.least ≤ 1262774 := by decide
  have reached : Composer.Reached standard
      ((Composer.start standard).afterAll [.define .distinct 4]) :=
    Composer.Reached.start.afterAll _
  obtain ⟨line, found⟩ := exists_prints reached least small
  refine ⟨isAccepted_standard, small, line, found, ?_⟩
  have printed : standard.Prints .distinct 1262774 line := ⟨_, reached, found⟩
  have later : ∀ skip ∈ (standard.scope .distinct 1262774).skips, enumRaw < skip :=
    fun skip => isAccepted_standard.le_of_mem_skips (by decide) (by decide)
  have place : (standard.scope .distinct 1262774).nameAt standard.reserved enumRaw = enumWord := by
    rw [Scope.nameAt, Scope.advance?_of_forall_lt later, Option.getD_some, ← spell_enumRaw]
    exact congrArg spell (freeRaw_nil enumRaw)
  rw [printed.params_eq small]
  exact List.mem_map.2 ⟨enumRaw, List.mem_range.2 (by decide), place⟩

end Style

end EnumMacros
