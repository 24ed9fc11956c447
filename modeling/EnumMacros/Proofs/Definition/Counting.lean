import EnumMacros.Definition.Basic

/-! Bytes of texts put together. A text that is joined from others takes up their bytes, and those
of what stands between them. -/

namespace EnumMacros

theorem utf8ByteSize_join (texts : List String) :
    (String.join texts).utf8ByteSize = total (texts.map String.utf8ByteSize) := by
  induction texts with
  | nil => rfl
  | cons text texts ih =>
    rw [String.join_cons, String.utf8ByteSize_append, ih, List.map_cons, total]

theorem utf8ByteSize_intercalate (between : String) (texts : List String) :
    (String.intercalate between texts).utf8ByteSize =
      total (texts.map String.utf8ByteSize) + (texts.length - 1) * between.utf8ByteSize := by
  induction texts with
  | nil => simp [total]
  | cons text texts ih =>
    cases texts with
    | nil => simp [total]
    | cons other texts =>
      rw [String.intercalate_cons_cons, String.utf8ByteSize_append, String.utf8ByteSize_append, ih]
      simp only [List.map_cons, total, List.length_cons, Nat.add_sub_cancel, Nat.add_mul]
      omega

theorem Line.utf8ByteSize_text (l : Line) : l.text.utf8ByteSize = l.size := by
  have comma : ",".utf8ByteSize = 1 := by decide
  have opened : "(".utf8ByteSize = 1 := by decide
  have closed : ")".utf8ByteSize = 1 := by decide
  have feed : "\n".utf8ByteSize = 1 := by decide
  rw [Line.text, Line.size]
  simp only [String.utf8ByteSize_append, utf8ByteSize_intercalate, comma, opened, closed, feed]
  omega

namespace Token

/-- The bytes that tokens take up when they are written. -/
def bytes (tokens : List Token) : Nat := (textOf tokens).utf8ByteSize

@[simp] theorem bytes_nil : bytes [] = 0 := rfl

@[simp] theorem bytes_cons (token : Token) (tokens : List Token) :
    bytes (token :: tokens) = token.text.utf8ByteSize + bytes tokens := by
  rw [bytes, textOf, List.map_cons, String.join_cons, String.utf8ByteSize_append]
  rfl

@[simp] theorem bytes_append (tokens others : List Token) :
    bytes (tokens ++ others) = bytes tokens + bytes others := by
  induction tokens with
  | nil => rw [List.nil_append, bytes_nil, Nat.zero_add]
  | cons token tokens ih => rw [List.cons_append, bytes_cons, bytes_cons, ih, Nat.add_assoc]

theorem bytes_separated (between : String) (runs : List (List Token)) :
    bytes (separated between runs) =
      total (runs.map bytes) + (runs.length - 1) * between.utf8ByteSize := by
  induction runs with
  | nil => simp [separated, total]
  | cons run runs ih =>
    cases runs with
    | nil => simp [separated, total]
    | cons other runs =>
      rw [separated] at ih
      rw [separated, List.intercalate_cons_cons, bytes_append, bytes_append, bytes_cons, bytes_nil,
        ih]
      simp only [text, List.map_cons, total, List.length_cons, Nat.add_sub_cancel, Nat.add_mul]
      omega

end Token

end EnumMacros
