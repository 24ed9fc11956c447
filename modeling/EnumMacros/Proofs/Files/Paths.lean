import EnumMacros.Files.Path
import Mathlib.Tactic.Common

/-! The names of a path that has been put together. A plain name is one that a path can be made of:
following a path with plain names appends them to its names, and changes nothing about where it
starts. -/

namespace EnumMacros

namespace Text

theorem splitChars_ne_nil (mark : Char) (cs : List Char) : splitChars mark cs ≠ [] := by
  cases cs with
  | nil => exact List.cons_ne_nil _ _
  | cons c cs =>
    rw [splitChars]
    split_ifs
    · exact List.cons_ne_nil _ _
    · split <;> exact List.cons_ne_nil _ _

theorem splitChars_append (mark : Char) (xs ys : List Char) :
    splitChars mark (xs ++ mark :: ys) = splitChars mark xs ++ splitChars mark ys := by
  induction xs with
  | nil => simp [splitChars]
  | cons x xs ih =>
    rw [List.cons_append, splitChars, splitChars, ih]
    by_cases same : x = mark
    · rw [if_pos same, if_pos same]
      rfl
    · rw [if_neg same, if_neg same]
      obtain ⟨piece, pieces, same⟩ := List.exists_cons_of_ne_nil (splitChars_ne_nil mark xs)
      rw [same]
      rfl

theorem splitChars_of_not_mem {mark : Char} {xs : List Char} (h : mark ∉ xs) :
    splitChars mark xs = [xs] := by
  induction xs with
  | nil => rfl
  | cons x xs ih =>
    rw [List.mem_cons, not_or] at h
    rw [splitChars, if_neg (Ne.symm h.1), ih h.2]

end Text

namespace Path

/-- A name without slashes that leads neither nowhere nor up. -/
structure IsPlain (name : String) : Prop where
  apart : '/' ∉ name.toList
  nonempty : name ≠ ""
  here : name ≠ "."
  up : name ≠ ".."

theorem names_slash (before after : String) :
    names (before ++ "/" ++ after) = names before ++ names after := by
  have chars : (before ++ "/" ++ after).toList = before.toList ++ '/' :: after.toList := by simp
  rw [names, names, names, Text.split, Text.split, Text.split, chars, Text.splitChars_append,
    List.map_append, List.filter_append]

theorem names_of_not_mem {name : String} (apart : '/' ∉ name.toList) (nonempty : name ≠ "") :
    names name = [name] := by
  rw [names, Text.split, Text.splitChars_of_not_mem apart]
  simp [nonempty]

theorem names_plain {name : String} (h : IsPlain name) : names name = [name] :=
  names_of_not_mem h.apart h.nonempty

theorem names_join (path : String) {name : String} (h : IsPlain name) :
    names (join path name) = names path ++ [name] := by
  rw [join]
  split_ifs with attached
  · rcases Bool.or_eq_true_iff.1 attached with empty | opened
    · obtain rfl : path = "" := by simpa using empty
      rw [String.empty_append, names_plain h]
      rfl
    · obtain ⟨before, same⟩ := List.getLast?_eq_some_iff.1 (beq_iff_eq.1 opened)
      have opens : path = String.ofList before ++ "/" ++ "" := by
        rw [← String.toList_inj, same]
        simp
      have joined : path ++ name = String.ofList before ++ "/" ++ name := by
        rw [← String.toList_inj, String.toList_append, same]
        simp
      rw [joined, names_slash, opens, names_slash, names_plain h, show names "" = [] from rfl,
        List.append_nil]
  · rw [names_slash, names_plain h]

theorem isRooted_join (path : String) {name : String} (h : IsPlain name) :
    isRooted (join path name) = isRooted path := by
  cases chars : path.toList with
  | nil =>
    obtain rfl : path = "" := String.toList_eq_nil_iff.1 chars
    have first : name.toList.head? ≠ some '/' := by
      intro same
      exact h.apart (List.mem_of_mem_head? same)
    rw [join, if_pos (by simp), String.empty_append, isRooted, isRooted,
      beq_eq_false_iff_ne.2 first]
    rfl
  | cons c cs =>
    rw [join, isRooted, isRooted, chars]
    split_ifs <;> simp [chars]

theorem names_joinAll (path : String) {parts : List String} (plain : ∀ p ∈ parts, IsPlain p) :
    names (joinAll path parts) = names path ++ parts := by
  induction parts generalizing path with
  | nil => rw [List.append_nil]; rfl
  | cons part parts ih =>
    rw [List.forall_mem_cons] at plain
    rw [joinAll, List.foldl_cons]
    apply (ih (join path part) plain.2).trans
    rw [names_join path plain.1, List.append_assoc]
    rfl

theorem isRooted_joinAll (path : String) {parts : List String} (plain : ∀ p ∈ parts, IsPlain p) :
    isRooted (joinAll path parts) = isRooted path := by
  induction parts generalizing path with
  | nil => rfl
  | cons part parts ih =>
    rw [List.forall_mem_cons] at plain
    rw [joinAll, List.foldl_cons]
    exact (ih (join path part) plain.2).trans (isRooted_join path plain.1)

end Path

end EnumMacros
