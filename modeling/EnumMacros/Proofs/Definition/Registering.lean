import EnumMacros.Proofs.Definition.Composing

/-! The names that a registry gives. Whatever it has been asked for before, the name of a macro is
the one that the template of its family stands for; and when the templates have been accepted, for
which one size is tried, then the names of all sizes can be defined as macros:
`names_serve_every_size`. -/

namespace EnumMacros.Registry

variable {style : Style}

/-- A registry after names have been asked for, each that of a family's macro of some size. -/
def after (style : Style) (asked : List (Family × Nat)) : Registry :=
  asked.foldl (fun r (family, n) => (r.take style family n).2) blank

theorem Sound.foldl {r : Registry} (h : r.Sound style) (asked : List (Family × Nat)) :
    (asked.foldl (fun r (family, n) => (r.take style family n).2) r).Sound style := by
  induction asked generalizing r with
  | nil => exact h
  | cons call asked ih => exact ih (h.take call.1 call.2)

theorem sound_after (style : Style) (asked : List (Family × Nat)) :
    (after style asked).Sound style :=
  (sound_blank style).foldl asked

/-- Names from accepted templates serve every size. A macro has the same name however often it is
asked for and whatever else has been; the name passes the check for names of macros; every reference
in its template has a value, and no brace is left of any; and if the template refers to the size,
then macros of different sizes have different names. -/
theorem names_serve_every_size {distinctName enumName : String}
    (accepted : Style.named distinctName enumName = .ok style) (family : Family) (n : Nat) :
    (∀ asked, ((after style asked).take style family n).1 = style.macroName family n) ∧
    Style.checkName (style.macroName family n) = .ok () ∧
    ((∀ name ∈ (style.nameTemplate family).references,
        (Template.sizeBinding n).lookup name = some (.text (Text.decimal n))) ∧
      '\x7b' ∉ (style.macroName family n).toList ∧ '\x7d' ∉ (style.macroName family n).toList) ∧
    ("n" ∈ (style.nameTemplate family).references →
      ∀ m, m ≠ n → style.macroName family m ≠ style.macroName family n) := by
  have checked := Style.checkTemplate_of_named accepted family
  have names := Template.names_of_checkTemplate checked
  have word := (names.isWord_render n).2
  refine ⟨fun asked => (sound_after style asked).take_eq family n,
    Template.checkName_render checked n, ⟨fun name referred => ?bound, ?opening, ?closing⟩,
    fun refers m apart same => apart (names.render_injective refers same)⟩
  case bound =>
    obtain rfl := names.sized name referred
    rfl
  case opening => exact fun brace => absurd (word _ brace) (by decide)
  case closing => exact fun brace => absurd (word _ brace) (by decide)

/-- The size may stand in a name more than once, next to other digits. -/
theorem names_serve_every_size_of_repeated :
    ∃ style, Style.named "A\x7bn\x7d1\x7bn\x7d_" "e" = .ok style ∧
      "n" ∈ (style.nameTemplate .distinct).references ∧
      ((after style [(.distinct, 11), (.enum, 1), (.distinct, 1)]).take style .distinct 1).1 =
        "A111_" ∧
      Style.checkName "A111_" = .ok () ∧
      style.macroName .distinct 11 ≠ "A111_" := by
  have accepted : Style.named "A\x7bn\x7d1\x7bn\x7d_" "e" = .ok
      { Style.standard with
        distinctName :=
          ⟨"A\x7bn\x7d1\x7bn\x7d_", [.literal "A", .reference "n", .literal "1", .reference "n",
            .literal "_"]⟩
        enumName := ⟨"e", [.literal "e"]⟩ } := rfl
  obtain ⟨same, identifier, -, apart⟩ := names_serve_every_size accepted .distinct 1
  exact ⟨_, accepted, by decide, same _, identifier, apart (by decide) 11 (by decide)⟩

end EnumMacros.Registry
