import EnumMacros.Text.Pieces

/-! Paths as they are written: names with slashes between them. A path can be followed by another
name, and most paths have a parent, which is what stands before the last name. -/

namespace EnumMacros.Path

def endsOpen (path : String) : Bool := path.toList.getLast? == some '/'

/-- The path followed by one more name; an empty path adds nothing. -/
def join (path name : String) : String :=
  if path.isEmpty || endsOpen path then path ++ name else path ++ "/" ++ name

def joinAll (path : String) (names : List String) : String := names.foldl join path

/-- Takes the slashes and the single dots off the end of a path that is given from its end; a path
that is a slash or a dot alone stays. -/
def dropTail : List Char → List Char
  | '/' :: c :: rest => dropTail (c :: rest)
  | '.' :: '/' :: rest => dropTail ('/' :: rest)
  | path => path

theorem length_dropTail_le (path : List Char) : (dropTail path).length ≤ path.length := by
  fun_induction dropTail path with
  | case1 c rest ih => simp only [List.length_cons] at *; omega
  | case2 rest ih => simp only [List.length_cons] at *; omega
  | case3 path => exact Nat.le_refl _

/-- A slash at the end of what is left stands alone. -/
theorem dropTail_slash (path rest : List Char) (h : dropTail path = '/' :: rest) : rest = [] := by
  fun_induction dropTail path with
  | case1 c rest' ih => exact ih h
  | case2 rest' ih => exact ih h
  | case3 path other _ =>
    subst h
    match rest with
    | [] => rfl
    | c :: rest => exact absurd rfl (other c rest)

/-- The path before the last name, from its end, for a path that is given from its end. -/
def parentChars? (path : List Char) : Option (List Char) :=
  match dropTail path with
  | [] => none
  | ['/'] => none
  | ['.'] => some []
  | c :: rest => some (dropTail ((c :: rest).dropWhile (· ≠ '/')))

theorem length_parentChars? {path before : List Char} (h : parentChars? path = some before) :
    before.length < path.length := by
  have tail := length_dropTail_le path
  unfold parentChars? at h
  split at h
  · simp at h
  · simp at h
  · next heq =>
    simp only [Option.some.injEq] at h
    subst h
    rw [heq] at tail
    simp only [List.length_cons, List.length_nil] at *
    omega
  · next c rest notSlash _ heq =>
    simp only [Option.some.injEq] at h
    subst h
    have hc : c ≠ '/' := by
      rintro rfl
      exact notSlash rfl (dropTail_slash path rest heq)
    have le := length_dropTail_le ((c :: rest).dropWhile (· ≠ '/'))
    rw [List.dropWhile_cons_of_pos (by simpa using hc)] at le ⊢
    have drop := (List.dropWhile_sublist (· ≠ '/') (l := rest)).length_le
    rw [heq] at tail
    simp only [List.length_cons] at *
    omega

/-- The path before the last name, unless the path is empty or the root. -/
def parent? (path : String) : Option String :=
  (parentChars? path.toList.reverse).map fun before => String.ofList before.reverse

theorem length_parent? {path before : String} (h : parent? path = some before) :
    before.length < path.length := by
  obtain ⟨chars, found, rfl⟩ := Option.map_eq_some_iff.1 h
  have := length_parentChars? found
  simpa [← String.length_toList] using this

def names (path : String) : List String := (Text.split '/' path).filter (· ≠ "")

def isRooted (path : String) : Bool := path.toList.head? == some '/'

end EnumMacros.Path
