import EnumMacros.Files.Path

/-! Files and directories in memory, and the three things that a run does with them: making a
directory with all the directories it lies in, writing a file, and failing. A failed step leaves the
disk as it was, up to directories made on the way. -/

namespace EnumMacros

inductive DiskError
  | notFound
  | alreadyExists
  | notDirectory
  | isDirectory
  | nameTooLong
  | zeroByte
  deriving Repr, BEq, DecidableEq

namespace DiskError

def message : DiskError → String
  | notFound => "No such file or directory (os error 2)"
  | alreadyExists => "File exists (os error 17)"
  | notDirectory => "Not a directory (os error 20)"
  | isDirectory => "Is a directory (os error 21)"
  | nameTooLong => "File name too long (os error 36)"
  | zeroByte => "file name contained an unexpected NUL byte"

end DiskError

/-- A place on the disk: the names on the way to it from the root. -/
abbrev Place := List String

/-- A disk: the contents of its files, its directories but the root, and the working directory,
where paths start that do not start at the root. -/
structure Disk where
  files : List (Place × String)
  directories : List Place
  working : Place
  deriving Repr, DecidableEq

namespace Disk

/-- A disk with nothing but an empty working directory. -/
def blank : Disk := { files := [], directories := [["work"]], working := ["work"] }

def file? (d : Disk) (place : Place) : Option String := d.files.lookup place

def hasDirectory (d : Disk) (place : Place) : Bool :=
  place.isEmpty || d.directories.contains place

def has (d : Disk) (place : Place) : Bool := d.hasDirectory place || (d.file? place).isSome

def longestName : Nat := 255

/-- Paths are shorter than this, in bytes. -/
def pathLimit : Nat := 4096

/-- Refuses a path that no disk takes. -/
def checkPath (path : String) : Except DiskError Unit :=
  if path.toList.contains '\x00' then .error .zeroByte
  else if path.isEmpty then .error .notFound
  else if pathLimit ≤ path.utf8ByteSize then .error .nameTooLong
  else .ok ()

/-- The directory that a name leads to from a directory. -/
def enter (d : Disk) (here : Place) (name : String) : Except DiskError Place :=
  if longestName < name.utf8ByteSize then .error .nameTooLong
  else if name = "." then .ok here
  else if name = ".." then .ok here.dropLast
  else if d.hasDirectory (here ++ [name]) then .ok (here ++ [name])
  else if (d.file? (here ++ [name])).isSome then .error .notDirectory
  else .error .notFound

def origin (d : Disk) (path : String) : Place := if Path.isRooted path then [] else d.working

/-- The directory that a path leads to. -/
def walk (d : Disk) (path : String) : Except DiskError Place := do
  checkPath path
  (Path.names path).foldlM d.enter (d.origin path)

def isDirectoryPath (d : Disk) (path : String) : Bool :=
  match d.walk path with
  | .ok _ => true
  | .error _ => false

/-- The directory that holds what a path names, and the last name of the path, when it is one that
a new file or directory can bear. -/
def site (d : Disk) (path : String) : Except DiskError (Place × Option String) := do
  checkPath path
  match (Path.names path).reverse with
  | [] => return ([], none)
  | last :: before =>
    let parent ← before.reverse.foldlM d.enter (d.origin path)
    return (parent, if last = "." ∨ last = ".." then none else some last)

def makeDirectory (d : Disk) (path : String) : Except DiskError Disk := do
  match ← d.site path with
  | (_, none) => .error .alreadyExists
  | (parent, some name) =>
    if longestName < name.utf8ByteSize then .error .nameTooLong
    else if d.has (parent ++ [name]) then .error .alreadyExists
    else return { d with directories := (parent ++ [name]) :: d.directories }

/-- Makes a directory and every directory on the way to it that is missing, and gives the disk
afterwards together with the error, if there is one. A directory that is there already will do. -/
def makeDirectories (d : Disk) (path : String) : Disk × Option DiskError :=
  if path.isEmpty then (d, none)
  else
    match d.makeDirectory path with
    | .ok made => (made, none)
    | .error .notFound =>
      match _h : Path.parent? path with
      | none => (d, some .notFound)
      | some before =>
        match makeDirectories d before with
        | (partly, some e) => (partly, some e)
        | (partly, none) =>
          match partly.makeDirectory path with
          | .ok made => (made, none)
          | .error e => (partly, if partly.isDirectoryPath path then none else some e)
    | .error e => (d, if d.isDirectoryPath path then none else some e)
termination_by path.length
decreasing_by exact Path.length_parent? _h

/-- Puts contents at a place, in place of what the file there held. -/
def put (d : Disk) (place : Place) (contents : String) : Disk :=
  { d with files := (place, contents) :: d.files.filter (·.1 ≠ place) }

def writeFile (d : Disk) (path contents : String) : Except DiskError Disk := do
  match ← d.site path with
  | (_, none) => .error .isDirectory
  | (parent, some name) =>
    if Path.endsOpen path then .error .isDirectory
    else if longestName < name.utf8ByteSize then .error .nameTooLong
    else if d.hasDirectory (parent ++ [name]) then .error .isDirectory
    else return d.put (parent ++ [name]) contents

@[simp] theorem file?_put_self (d : Disk) (place : Place) (contents : String) :
    (d.put place contents).file? place = some contents := by
  simp [put, file?]

/-- The files below the working directory, with their paths from there, in the order of the
paths. -/
def listing (d : Disk) : List (String × String) :=
  let below := d.files.filterMap fun (place, contents) =>
    if d.working.isPrefixOf place then
      some (String.intercalate "/" (place.drop d.working.length), contents)
    else none
  below.mergeSort fun a b => a.1 ≤ b.1

end Disk

end EnumMacros
