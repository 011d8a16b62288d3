import LuaBytecode.Bytes

/-!
# Where a command runs

A command sees files by their paths.  A `Site` says what is where: a place is the list of the names
that lead to it from the root of the file system, and one place is the working directory, where
relative paths start.

Finding what a path leads to walks from place to place, so each place on the way but the last has
to be a directory, and also the last if the path ends in a slash.  The root is the one directory
that two dots do not leave.
-/

namespace LuaBytecode

/-- What there is at a place. -/
inductive Entry where
  | file (content : Bytes)
  | directory
  /-- A file that cannot be read. -/
  | unreadable (reason : String)
  deriving DecidableEq, Repr

/-- Why a path leads to nothing that can be read. -/
inductive PathFault where
  | notFound
  | notADirectory
  | isADirectory
  /-- The path, or a name in it, is longer than any can be. -/
  | nameTooLong
  | other (reason : String)
  deriving DecidableEq, Repr

/-- The wording of the operating system. -/
def PathFault.message : PathFault → String
  | .notFound => "No such file or directory (os error 2)"
  | .notADirectory => "Not a directory (os error 20)"
  | .isADirectory => "Is a directory (os error 21)"
  | .nameTooLong => "File name too long (os error 36)"
  | .other reason => reason

/-- The surroundings of a command. -/
structure Site where
  /-- Where relative paths start. -/
  workingDirectory : List String
  /-- What there is at a place. -/
  entry? : List String → Option Entry

namespace Site

/-- The place a name leads to from a place: the empty name and a single dot stay, two dots go one
directory up, and at the root they stay too. -/
def step (place : List String) (name : String) : List String :=
  if name = "" ∨ name = "." then place
  else if name = ".." then place.dropLast
  else place ++ [name]

/-- How many bytes a name has at most. -/
def maxNameLength : Nat := 255

/-- How many bytes a path has at most. -/
def maxPathLength : Nat := 4095

/-- The place at the end of a way along names; each place before it has to be a directory. -/
def walk (site : Site) (place : List String) : List String → Except PathFault (List String)
  | [] => .ok place
  | name :: names =>
      match site.entry? place with
      | some .directory =>
          if maxNameLength < name.utf8ByteSize then .error .nameTooLong
          else walk site (step place name) names
      | some _ => .error .notADirectory
      | none => .error .notFound

/-- What there is at the end of a way. -/
def arrive (site : Site) (place names : List String) : Except PathFault Entry :=
  match site.walk place names with
  | .error fault => .error fault
  | .ok place =>
      match site.entry? place with
      | some entry => .ok entry
      | none => .error .notFound

/-- The names in a path. -/
def names (path : String) : List String := (path.toList.splitOn '/').map String.ofList

/-- Where a path starts: an absolute one at the root, a relative one at the working directory. -/
def origin (site : Site) (path : String) : List String :=
  if path.toList.head? = some '/' then [] else site.workingDirectory

/-- What a path leads to. -/
def find (site : Site) (path : String) : Except PathFault Entry :=
  if maxPathLength < path.utf8ByteSize then .error .nameTooLong
  else site.arrive (site.origin path) (names path)

/-- The content of what was found, if it is a file. -/
def content : Except PathFault Entry → Except PathFault Bytes
  | .ok (.file content) => .ok content
  | .ok .directory => .error .isADirectory
  | .ok (.unreadable reason) => .error (.other reason)
  | .error fault => .error fault

/-- The content of the file a path leads to. -/
def readFile (site : Site) (path : String) : Except PathFault Bytes := content (site.find path)

/-- The content of the file at a place. -/
def readPlace (site : Site) (place : List String) : Except PathFault Bytes :=
  content (site.arrive place [])

/-- A path leads somewhere. -/
def exists? (site : Site) (path : String) : Bool :=
  match site.find path with
  | .ok _ => true
  | .error _ => false

/-- How a place is written. -/
def pathOf (place : List String) : String := "/" ++ "/".intercalate place

/-- A directory and the directories around it, the innermost first. -/
def ancestors : (place : List String) → List (List String)
  | [] => [[]]
  | name :: names => (ancestors names).map (name :: ·) ++ [[]]

end Site

end LuaBytecode
