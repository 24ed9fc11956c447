import EnumMacros.Proofs.Definition.Printing
import EnumMacros.Proofs.Header.Growth
import EnumMacros.Proofs.Header.Placing

/-! Headers read back from their texts, line by line. The macros that a header defines are those of
its sizes, after the guard macro if there is one, and the paths it includes are those it was given.
-/

namespace EnumMacros

/-! ### Directives -/

/-- What follows a beginning, if it is there. -/
def Text.after? : List Char → List Char → Option (List Char)
  | [], cs => some cs
  | p :: ps, c :: cs => if p = c then after? ps cs else none
  | _ :: _, [] => none

theorem Text.after?_append (ps cs : List Char) : Text.after? ps (ps ++ cs) = some cs := by
  induction ps with
  | nil => rfl
  | cons p ps ih => rw [List.cons_append, Text.after?, if_pos rfl, ih]

/-- The macro that a line defines. -/
def definedMacro? (line : String) : Option String :=
  (Text.after? "#define ".toList line.toList).map fun rest =>
    String.ofList (rest.takeWhile Identifier.isWordChar)

/-- The path that a line includes. -/
def includedPath? (line : String) : Option String :=
  (Text.after? "#include \"".toList line.toList).map fun rest =>
    String.ofList (rest.takeWhile (· ≠ '\x22'))

/-- The macros that a text defines, in order. -/
def definedMacros (text : String) : List String := (Text.split '\n' text).filterMap definedMacro?

/-- The paths that a text includes, in order. -/
def includedPaths (text : String) : List String := (Text.split '\n' text).filterMap includedPath?

theorem split_join {lines : List String} (h : ∀ line ∈ lines, IsOneLine line) :
    Text.split '\n' (String.join (lines.map (· ++ "\n"))) = lines ++ [""] := by
  rw [Text.split]
  induction lines with
  | nil => rfl
  | cons line lines ih =>
    obtain ⟨first, rest⟩ := List.forall_mem_cons.1 h
    have chars : (String.join ((line :: lines).map (· ++ "\n"))).toList =
        line.toList ++ '\n' :: (String.join (lines.map (· ++ "\n"))).toList := by
      simp
    rw [chars, Text.splitChars_append, List.map_append, ih rest,
      Text.splitChars_of_not_mem first]
    simp

theorem definedMacro?_define {name : String} (h : Identifier.IsWord name) (rest : String)
    (ends : ∀ c ∈ rest.toList.head?, Identifier.isWordChar c = false) :
    definedMacro? ("#define " ++ name ++ rest) = some name := by
  have chars : ("#define " ++ name ++ rest).toList =
      "#define ".toList ++ (name.toList ++ rest.toList) := by
    rw [String.toList_append, String.toList_append, List.append_assoc]
  rw [definedMacro?, chars, Text.after?_append, Option.map_some,
    List.takeWhile_append_of_pos h.2]
  cases text : rest.toList with
  | nil => rw [List.takeWhile_nil, List.append_nil, String.ofList_toList]
  | cons c cs =>
    have stop := ends c (by rw [text]; rfl)
    rw [List.takeWhile_cons_of_neg (by simp [stop]), List.append_nil, String.ofList_toList]

theorem includedPath?_include {path : String} (h : '\x22' ∉ path.toList) :
    includedPath? ("#include \"" ++ path ++ "\"") = some path := by
  have chars : ("#include \"" ++ path ++ "\"").toList =
      "#include \"".toList ++ (path.toList ++ ['\x22']) := by
    rw [String.toList_append, String.toList_append, List.append_assoc]
    rfl
  have inside : ∀ c ∈ path.toList, decide (c ≠ '\x22') = true := by
    intro c member
    rw [decide_eq_true_eq]
    rintro rfl
    exact h member
  rw [includedPath?, chars, Text.after?_append, Option.map_some,
    List.takeWhile_append_of_pos inside,
    List.takeWhile_cons_of_neg (by simp), List.append_nil, String.ofList_toList]

theorem definedMacro?_include (rest : String) : definedMacro? ("#include \"" ++ rest) = none := by
  rw [definedMacro?, String.toList_append]
  rfl

theorem includedPath?_define (rest : String) : includedPath? ("#define " ++ rest) = none := by
  rw [includedPath?, String.toList_append]
  rfl

/-! ### Guards -/

namespace GuardStyle

/-- The lines before the included paths. -/
def openingLines (style : GuardStyle) (tag : String) : List String :=
  match style with
  | .classic => ["#ifndef " ++ guardMacro tag, "#define " ++ guardMacro tag]
  | .pragmaOnce => ["#pragma once"]
  | .unguarded => []

/-- The lines after the definitions. -/
def closingLines : GuardStyle → List String
  | .classic => ["#endif"]
  | .pragmaOnce | .unguarded => []

/-- The macros of the guard. -/
def macros (style : GuardStyle) (tag : String) : List String :=
  match style with
  | .classic => [guardMacro tag]
  | .pragmaOnce | .unguarded => []

theorem isWord_guardMacro (number : Nat) : Identifier.IsWord (guardMacro (tag number)) := by
  have spelled := Identifier.isWord_spell number
  have before : ("UNIQ_".toList.all Identifier.isWordChar) = true := by decide
  have after : ("_H".toList.all Identifier.isWordChar) = true := by decide
  refine ⟨by simp [guardMacro], ?_⟩
  rw [guardMacro, String.toList_append, String.toList_append]
  simp only [List.forall_mem_append]
  exact ⟨⟨List.all_eq_true.1 before, spelled.2⟩, List.all_eq_true.1 after⟩

theorem guardMacro_injective {m n : Nat} (same : guardMacro (tag m) = guardMacro (tag n)) :
    m = n := by
  have chars := congrArg String.toList same
  simp only [guardMacro, String.toList_append, List.append_cancel_right_eq,
    List.append_cancel_left_eq, String.toList_inj] at chars
  exact Identifier.spell_injective chars

theorem opening_eq (style : GuardStyle) (tag : String) :
    style.opening tag = String.join ((style.openingLines tag).map (· ++ "\n")) := by
  rw [← String.toList_inj]
  cases style <;> simp [opening, openingLines]

theorem closing_eq (style : GuardStyle) :
    style.closing = String.join (style.closingLines.map (· ++ "\n")) := by
  cases style <;> rfl

theorem isOneLine_openingLines (style : GuardStyle) (number : Nat) :
    ∀ line ∈ style.openingLines (tag number), IsOneLine line := by
  have word := isOneLine_of_isWord (isWord_guardMacro number)
  cases style with
  | classic =>
    simp only [openingLines, List.forall_mem_cons]
    exact ⟨(show IsOneLine "#ifndef " by decide).append word,
      (show IsOneLine "#define " by decide).append word, fun _ none => absurd none List.not_mem_nil⟩
  | pragmaOnce => exact List.forall_mem_singleton.2 (by decide)
  | unguarded => exact fun _ none => absurd none List.not_mem_nil

theorem isOneLine_closingLines (style : GuardStyle) :
    ∀ line ∈ style.closingLines, IsOneLine line := by
  cases style with
  | classic => exact List.forall_mem_singleton.2 (by decide)
  | pragmaOnce | unguarded => exact fun _ none => absurd none List.not_mem_nil

theorem definedMacros_openingLines (style : GuardStyle) (number : Nat) :
    (style.openingLines (tag number)).filterMap definedMacro? = style.macros (tag number) := by
  cases style with
  | classic =>
    have undefined : definedMacro? ("#ifndef " ++ guardMacro (tag number)) = none := by
      rw [definedMacro?, String.toList_append]
      rfl
    have defined : definedMacro? ("#define " ++ guardMacro (tag number)) =
        some (guardMacro (tag number)) := by
      have whole := definedMacro?_define (isWord_guardMacro number) "" (by simp)
      rwa [String.append_empty] at whole
    simp only [openingLines, List.filterMap_cons, undefined, defined]
    rfl
  | pragmaOnce | unguarded => rfl

theorem includedPaths_openingLines (style : GuardStyle) (tag : String) :
    (style.openingLines tag).filterMap includedPath? = [] := by
  cases style with
  | classic =>
    have first : includedPath? ("#ifndef " ++ guardMacro tag) = none := by
      rw [includedPath?, String.toList_append]
      rfl
    simp only [openingLines, List.filterMap_cons, first, includedPath?_define]
    rfl
  | pragmaOnce | unguarded => rfl

end GuardStyle

/-! ### Headers -/

namespace Layout

/-- Ways are made of tame characters and slashes. -/
theorem tame_or_slash_of_mem_way {source target : List String} {c : Char}
    (tame : ∀ part ∈ target, ∀ c ∈ part.toList, Path.IsTame c)
    (h : c ∈ (way source target).toList) : Path.IsTame c ∨ c = '/' := by
  rw [way, String.toList_join] at h
  obtain ⟨text, member, inside⟩ := List.mem_flatMap.1 h
  obtain ⟨step, taken, rfl⟩ := List.mem_map.1 member
  rw [String.toList_append, List.mem_append] at inside
  rcases inside with own | slash
  · refine .inl ?_
    rcases List.mem_append.1 taken with up | down
    · obtain rfl := List.eq_of_mem_replicate up
      obtain rfl : c = '.' := by simpa using own
      decide
    · exact tame step (List.mem_of_mem_drop down) c own
  · exact .inr (List.mem_singleton.1 slash)

/-- A path that leads to a header can be written between quotes on a line. -/
theorem quotable_way {source : List String} {family : Family} {span : Span} {groupLength : Nat}
    {c : Char}
    (h : c ∈ (way source (directory family span groupLength) ++ headerName family span).toList) :
    c ≠ '\n' ∧ c ≠ '\x22' := by
  have tame : Path.IsTame c ∨ c = '/' := by
    rw [String.toList_append, List.mem_append] at h
    rcases h with way | file
    · exact tame_or_slash_of_mem_way (fun _ => isTame_of_mem_directory) way
    · exact .inl (isTame_headerName family span c file)
  constructor
  · rintro rfl
    exact absurd tame (by decide)
  · rintro rfl
    exact absurd tame (by decide)

end Layout

namespace Header

variable {style : Style} {groupLength : Nat} {before : List Header} {h : Header}

theorem Follows.quotable (follows : h.Follows style groupLength before) {path : String}
    (member : path ∈ h.included) : ∀ c ∈ path.toList, c ≠ '\n' ∧ c ≠ '\x22' := by
  rw [follows.included, Tree.includePaths] at member
  split at member
  · exact absurd member List.not_mem_nil
  · obtain ⟨span, -, rfl⟩ := List.mem_map.1 member
    exact fun c => Layout.quotable_way

/-- The sizes of a header are within bounds. -/
theorem Follows.small (follows : h.Follows style groupLength before) {entry : Nat × Line}
    (member : entry ∈ h.lines) : entry.1 < sizeLimit := by
  have size : entry.1 ∈ h.span.sizes := by
    rw [← follows.sizes]
    exact List.mem_map_of_mem member
  have := (Span.mem_sizes.1 size).2
  have := follows.bounded
  omega

/-- The lines of a header. -/
def lineTexts (guardStyle : GuardStyle) (h : Header) : List String :=
  guardStyle.openingLines (GuardStyle.tag h.number) ++
    h.included.map (fun path => "#include \"" ++ path ++ "\"") ++
    h.lines.map (fun entry => entry.2.written) ++ guardStyle.closingLines

theorem text_eq (guardStyle : GuardStyle) (h : Header) :
    h.text guardStyle = String.join ((h.lineTexts guardStyle).map (· ++ "\n")) := by
  have include_line (path : String) : "#include \"" ++ path ++ "\"\n" =
      "#include \"" ++ path ++ "\"" ++ "\n" := by
    rw [← String.toList_inj]
    simp
  rw [text, GuardStyle.opening_eq, GuardStyle.closing_eq, includeBlock, Printed.text, lineTexts]
  simp only [List.map_append, String.join_append, List.map_map, Function.comp_def, include_line,
    Line.text_eq]

theorem Follows.isOneLine_lineTexts (follows : h.Follows style groupLength before)
    (accepted : style.IsAccepted) (guardStyle : GuardStyle) :
    ∀ line ∈ h.lineTexts guardStyle, IsOneLine line := by
  simp only [lineTexts, List.forall_mem_append, List.forall_mem_map]
  refine ⟨⟨⟨guardStyle.isOneLine_openingLines h.number, fun path member => ?_⟩,
    fun entry member => ?_⟩, guardStyle.isOneLine_closingLines⟩
  · have one : IsOneLine path := fun feed => (follows.quotable member _ feed).1 rfl
    exact ((show IsOneLine "#include \"" by decide).append one).append (by decide)
  · exact (follows.printed entry member).isOneLine (follows.small member) accepted

theorem definedMacro?_line {line : Line} {n : Nat} {family : Family}
    (h : style.Prints family n line) (small : n < sizeLimit) (accepted : style.IsAccepted) :
    definedMacro? line.written = some (style.macroName family n) := by
  have word := accepted.isWord_macroName family n
  have written : line.written = "#define " ++ style.macroName family n ++
      ("(" ++ String.intercalate "," line.params ++ ")" ++ line.body) := by
    rw [← h.name_eq small, Line.written]
    simp only [String.append_assoc]
  rw [written]
  apply definedMacro?_define word
  intro c first
  rw [String.append_assoc, String.append_assoc, String.toList_append] at first
  obtain rfl := Option.some.inj first
  decide

/-- A header defines the macros of its sizes in order and no other, beside its guard macro. -/
theorem Follows.definedMacros_text (follows : h.Follows style groupLength before)
    (accepted : style.IsAccepted) (guardStyle : GuardStyle) :
    definedMacros (h.text guardStyle) =
      guardStyle.macros (GuardStyle.tag h.number) ++
        h.span.sizes.map (style.macroName h.family) := by
  have includes : (h.included.map fun path => "#include \"" ++ path ++ "\"").filterMap
      definedMacro? = [] := by
    refine List.filterMap_eq_nil_iff.2 (List.forall_mem_map.2 fun path _ => ?_)
    rw [String.append_assoc, definedMacro?_include]
  have defines : (h.lines.map fun entry => entry.2.written).filterMap definedMacro? =
      h.span.sizes.map (style.macroName h.family) := by
    rw [List.filterMap_map, ← follows.sizes, List.map_map, ← List.filterMap_eq_map]
    apply List.filterMap_congr
    intro entry member
    exact definedMacro?_line (follows.printed entry member) (follows.small member) accepted
  have closes : guardStyle.closingLines.filterMap definedMacro? = [] := by
    cases guardStyle <;> rfl
  rw [definedMacros, text_eq, split_join (follows.isOneLine_lineTexts accepted guardStyle),
    lineTexts]
  simp only [List.filterMap_append, GuardStyle.definedMacros_openingLines, includes, defines,
    closes]
  rw [List.append_nil, List.append_nil]
  exact List.append_nil _

/-- The paths that a header includes are those it was given. -/
theorem Follows.includedPaths_text (follows : h.Follows style groupLength before)
    (accepted : style.IsAccepted) (guardStyle : GuardStyle) :
    includedPaths (h.text guardStyle) = h.included := by
  have includes : (h.included.map fun path => "#include \"" ++ path ++ "\"").filterMap
      includedPath? = h.included := by
    rw [List.filterMap_map]
    refine (List.filterMap_congr fun path member => ?_).trans List.filterMap_some
    exact includedPath?_include fun quote => (follows.quotable member _ quote).2 rfl
  have defines : (h.lines.map fun entry => entry.2.written).filterMap includedPath? = [] := by
    refine List.filterMap_eq_nil_iff.2 (List.forall_mem_map.2 fun entry _ => ?_)
    simp only [Line.written, String.append_assoc, includedPath?_define]
  have closes : guardStyle.closingLines.filterMap includedPath? = [] := by
    cases guardStyle <;> rfl
  rw [includedPaths, text_eq, split_join (follows.isOneLine_lineTexts accepted guardStyle),
    lineTexts]
  simp only [List.filterMap_append, GuardStyle.includedPaths_openingLines, includes, defines,
    closes]
  rw [List.nil_append, List.append_nil, List.append_nil]
  exact List.append_nil _

end Header

end EnumMacros
