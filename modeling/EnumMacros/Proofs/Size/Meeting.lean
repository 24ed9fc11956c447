import EnumMacros.Size.Index
import Mathlib.Data.List.Chain
import Mathlib.Tactic.Common

/-! The search by halves. Where the elements with a property all come first, the search ends at the
first element without it; in a sequence of spans that follow each other the two searches therefore
cut out the spans that share a size with a given one, in order: `meeting_eq_filter`. However spans
have been pushed one after the other, looking them up comes to the same as going through all of
them: `meeting_pushAll`. -/

namespace EnumMacros

/-- The place cuts the elements with a property off from those without it, which come after them. -/
def Cuts {α : Type} (p : α → Bool) (xs : List α) (place : Nat) : Prop :=
  ∀ (i : Nat) (x : α), xs[i]? = some x → (i < place ↔ p x = true)

namespace Cuts

variable {α : Type} {p : α → Bool} {xs : List α} {place : Nat}

theorem of_mem_take (h : Cuts p xs place) {x : α} (member : x ∈ xs.take place) : p x = true := by
  obtain ⟨i, found⟩ := List.mem_iff_getElem?.1 member
  rw [List.getElem?_take] at found
  split_ifs at found with before
  exact (h i x found).1 before

theorem of_mem_drop (h : Cuts p xs place) {x : α} (member : x ∈ xs.drop place) :
    p x = false := by
  obtain ⟨i, found⟩ := List.mem_iff_getElem?.1 member
  rw [List.getElem?_drop] at found
  rw [Bool.eq_false_iff, Ne, ← h (place + i) x found]
  omega

theorem filter_eq_take (h : Cuts p xs place) : xs.filter p = xs.take place := by
  calc xs.filter p = (xs.take place ++ xs.drop place).filter p := by rw [List.take_append_drop]
    _ = xs.take place ++ [] := by
      rw [List.filter_append, List.filter_eq_self.2 fun x => h.of_mem_take,
        List.filter_eq_nil_iff.2 fun x member => by simp [h.of_mem_drop member]]
    _ = xs.take place := List.append_nil _

theorem filter_not_eq_drop (h : Cuts p xs place) : xs.filter (! p ·) = xs.drop place := by
  calc xs.filter (! p ·) = (xs.take place ++ xs.drop place).filter (! p ·) := by
        rw [List.take_append_drop]
    _ = [] ++ xs.drop place := by
      rw [List.filter_append,
        List.filter_eq_nil_iff.2 fun x member => by simp [h.of_mem_take member],
        List.filter_eq_self.2 fun x member => by simp [h.of_mem_drop member]]
    _ = xs.drop place := List.nil_append _

theorem take (h : Cuts p xs place) (k : Nat) : Cuts p (xs.take k) place := by
  intro i x found
  rw [List.getElem?_take] at found
  split_ifs at found
  exact h i x found

end Cuts

section Search

variable {α : Type} {p : α → Bool} {xs : Array α}
  (first : ∀ (i j : Nat) (x y : α), xs[i]? = some x → xs[j]? = some y → i ≤ j → p y = true →
    p x = true)

include first

theorem lt_partitionPoint_iff {low high : Nat} (inside : high ≤ xs.size)
    (below : ∀ (i : Nat) (x : α), xs[i]? = some x → i < low → p x = true)
    (above : ∀ (i : Nat) (x : α), xs[i]? = some x → high ≤ i → p x = false) {i : Nat} {x : α}
    (found : xs[i]? = some x) : i < partitionPoint p xs low high ↔ p x = true := by
  fun_induction partitionPoint p xs low high with
  | case1 low high smaller middle outside =>
    have := Array.getElem?_eq_none_iff.1 outside
    omega
  | case2 low high smaller middle y here holds ih =>
    refine ih inside (fun j z at_j before => ?_) above
    exact first j middle z y at_j here (by omega) holds
  | case3 low high smaller middle y here fails ih =>
    apply ih (by omega) below
    intro j z at_j after
    rw [Bool.eq_false_iff]
    intro holds
    exact fails (first middle j y z here at_j after holds)
  | case4 low high empty =>
    constructor
    · intro before
      exact below i x found before
    · intro holds
      by_contra after
      rw [above i x found (by omega)] at holds
      exact Bool.false_ne_true holds

/-- The search finds where the elements with the property end, if these come first. -/
theorem cuts_partitionPoint : Cuts p xs.toList (partitionPoint p xs 0 xs.size) := by
  intro i x found
  rw [Array.getElem?_toList] at found
  refine lt_partitionPoint_iff first (Nat.le_refl _) (fun j y _ before => ?_)
    (fun j y at_j past => ?_) found
  · exact absurd before (Nat.not_lt_zero j)
  · rw [Array.getElem?_eq_none past] at at_j
    exact absurd at_j (by simp)

end Search

/-- Spans that follow each other, none of which is reversed. -/
structure Span.Follow (spans : List Span) : Prop where
  nonempty : ∀ s ∈ spans, s.first ≤ s.last
  ordered : spans.Pairwise fun s t => s.last < t.first

/-- It is enough that each span starts after the one before it. -/
theorem Span.follow_of_isChain {spans : List Span} (nonempty : ∀ s ∈ spans, s.first ≤ s.last)
    (ordered : spans.IsChain fun s t => s.last < t.first) : Span.Follow spans := by
  refine ⟨nonempty, ?_⟩
  induction spans with
  | nil => exact .nil
  | cons s spans ih =>
    rw [List.forall_mem_cons] at nonempty
    have rest := ih nonempty.2 ordered.tail
    refine List.pairwise_cons.2 ⟨fun t member => ?_, rest⟩
    cases spans with
    | nil => exact absurd member List.not_mem_nil
    | cons next spans =>
      have near : s.last < next.first := (List.isChain_cons_cons.1 ordered).1
      rcases List.mem_cons.1 member with rfl | later
      · exact near
      · have forward := nonempty.2 next List.mem_cons_self
        have far := (List.pairwise_cons.1 rest).1 t later
        omega

namespace HeaderIndex

variable {index : HeaderIndex}

theorem ordered_of_le (h : Span.Follow index.spans.toList) {i j : Nat} {s t : Span}
    (hs : index.spans[i]? = some s) (ht : index.spans[j]? = some t) (le : i ≤ j) :
    s.first ≤ t.first ∧ s.last ≤ t.last := by
  rw [← Array.getElem?_toList] at hs ht
  have own := h.nonempty s (List.mem_of_getElem? hs)
  have other := h.nonempty t (List.mem_of_getElem? ht)
  rcases Nat.lt_or_eq_of_le le with lt | rfl
  · obtain ⟨hi, rfl⟩ := List.getElem?_eq_some_iff.1 hs
    obtain ⟨hj, rfl⟩ := List.getElem?_eq_some_iff.1 ht
    have apart := List.pairwise_iff_getElem.1 h.ordered i j hi hj lt
    omega
  · rw [hs] at ht
    obtain rfl := Option.some.inj ht
    exact ⟨Nat.le_refl _, Nat.le_refl _⟩

/-- The two searches cut out the spans that share a size with a given one. -/
theorem meeting_eq_filter (h : Span.Follow index.spans.toList) {s : Span}
    (forward : s.first ≤ s.last) :
    index.meeting s =
      index.spans.toList.filter fun t => t.first ≤ s.last && s.first ≤ t.last := by
  have start : Cuts (·.last < s.first) index.spans.toList
      (partitionPoint (·.last < s.first) index.spans 0 index.spans.size) := by
    refine cuts_partitionPoint fun i j x y hx hy le holds => ?_
    have := (ordered_of_le h hx hy le).2
    simp only [decide_eq_true_eq] at holds ⊢
    omega
  have stop : Cuts (·.first ≤ s.last) index.spans.toList
      (partitionPoint (·.first ≤ s.last) index.spans 0 index.spans.size) := by
    refine cuts_partitionPoint fun i j x y hx hy le holds => ?_
    have := (ordered_of_le h hx hy le).1
    simp only [decide_eq_true_eq] at holds ⊢
    omega
  rw [meeting, if_neg (Nat.not_lt.2 forward), Array.toList_extract, List.extract_eq_take_drop,
    ← List.drop_take, ← (start.take _).filter_not_eq_drop, ← stop.filter_eq_take,
    List.filter_filter]
  refine List.filter_congr fun t _ => ?_
  rw [Bool.and_comm, ← decide_not]
  simp only [Nat.not_lt]

theorem mem_meeting (h : Span.Follow index.spans.toList) {s t : Span} (forward : s.first ≤ s.last) :
    t ∈ index.meeting s ↔ t ∈ index.spans.toList ∧ s.first ≤ t.last ∧ t.first ≤ s.last := by
  rw [meeting_eq_filter h forward]
  simp only [List.mem_filter, Bool.and_eq_true, decide_eq_true_eq, and_comm]

/-- The index after some spans have been pushed in order. -/
def pushAll (pushed : List Span) : HeaderIndex := pushed.foldl push empty

theorem toList_foldl_push (index : HeaderIndex) (pushed : List Span) :
    (pushed.foldl push index).spans.toList = index.spans.toList ++ pushed := by
  induction pushed generalizing index with
  | nil => exact (List.append_nil _).symm
  | cons s pushed ih => rw [List.foldl_cons, ih, toList_push, List.append_assoc]; rfl

@[simp] theorem toList_pushAll (pushed : List Span) :
    (pushAll pushed).spans.toList = pushed := by
  rw [pushAll, toList_foldl_push]
  rfl

/-- When spans have been pushed, none of them reversed and each starting after the one before it
ends, then the two searches give what going through all the spans gives: in the order in which they
were pushed, those that start no later than the given span ends and end no earlier than it starts. A
reversed span meets none, even if both of its ends lie in one of the spans. -/
theorem meeting_pushAll {pushed : List Span} (nonempty : ∀ s ∈ pushed, s.first ≤ s.last)
    (ordered : pushed.IsChain fun s t => s.last < t.first) (query : Span) :
    (query.first ≤ query.last → (pushAll pushed).meeting query =
      pushed.filter fun s => s.first ≤ query.last && query.first ≤ s.last) ∧
    (query.last < query.first → (pushAll pushed).meeting query = []) := by
  have follow : Span.Follow (pushAll pushed).spans.toList := by
    rw [toList_pushAll]
    exact Span.follow_of_isChain nonempty ordered
  constructor
  · intro forward
    rw [meeting_eq_filter follow forward, toList_pushAll]
  · intro reversed
    rw [meeting, if_pos reversed]

theorem meeting_pushAll_around_gap :
    (∀ s ∈ [Span.mk 1 49, ⟨60, 99⟩, ⟨100, 100⟩], s.first ≤ s.last) ∧
    [Span.mk 1 49, ⟨60, 99⟩, ⟨100, 100⟩].IsChain (fun s t => s.last < t.first) ∧
    (pushAll [⟨1, 49⟩, ⟨60, 99⟩, ⟨100, 100⟩]).meeting ⟨49, 60⟩ = [⟨1, 49⟩, ⟨60, 99⟩] ∧
    (pushAll [⟨1, 49⟩, ⟨60, 99⟩, ⟨100, 100⟩]).meeting ⟨50, 59⟩ = [] ∧
    (pushAll [⟨1, 49⟩, ⟨60, 99⟩, ⟨100, 100⟩]).meeting ⟨70, 65⟩ = [] := by
  have nonempty : ∀ s ∈ [Span.mk 1 49, ⟨60, 99⟩, ⟨100, 100⟩], s.first ≤ s.last := by decide
  have ordered : [Span.mk 1 49, ⟨60, 99⟩, ⟨100, 100⟩].IsChain (fun s t => s.last < t.first) := by
    decide
  exact ⟨nonempty, ordered, (meeting_pushAll nonempty ordered ⟨49, 60⟩).1 (by decide),
    (meeting_pushAll nonempty ordered ⟨50, 59⟩).1 (by decide),
    (meeting_pushAll nonempty ordered ⟨70, 65⟩).2 (by decide)⟩

end HeaderIndex

end EnumMacros
