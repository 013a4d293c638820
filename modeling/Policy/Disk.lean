namespace Policy

/-- Why a path leads to no text. -/
inductive ReadError where
  | notFound
  | notDirectory
  | isDirectory
  | nameTooLong
  | nulInPath
  | notText
  | other (message : String)
  deriving DecidableEq

def ReadError.message : ReadError → String
  | notFound => "No such file or directory (os error 2)"
  | notDirectory => "Not a directory (os error 20)"
  | isDirectory => "Is a directory (os error 21)"
  | nameTooLong => "File name too long (os error 36)"
  | nulInPath => "file name contained an unexpected NUL byte"
  | notText => "stream did not contain valid UTF-8"
  | other message => message

/-- What paths lead to. -/
abbrev Disk := String → Except ReadError String

namespace Disk

/-- Whether a path leads to a file. -/
def isFile (disk : Disk) (path : String) : Bool :=
  match disk path with
  | .ok _ | .error .notText | .error (.other _) => true
  | .error _ => false

/-- The names of a path. Slashes next to each other have an empty name between them. -/
def names : List Char → List (List Char)
  | [] => [[]]
  | c :: cs =>
    if c = '/' then [] :: names cs
    else
      match names cs with
      | [] => [[c]]
      | name :: rest => (c :: name) :: rest

def isHere (name : List Char) : Bool := name = [] || name = ['.']

def isAbove (name : List Char) : Bool := name = ['.', '.']

/-- Files with the names on the way to them from the directory where paths start. -/
abbrev Tree := List (List (List Char) × String)

/-- A place in a tree is a file, a directory, or above the start. -/
inductive Place where
  | file (content : String)
  | directory (way : List (List Char))
  | above

def Tree.place? (tree : Tree) (way : List (List Char)) : Option Place :=
  match tree.find? (·.1 = way) with
  | some (_, content) => some (.file content)
  | none => if tree.any (way.isPrefixOf ·.1) then some (.directory way) else none

def nameLimit : Nat := 255

def pathLimit : Nat := 4095

/-- Goes one name further. -/
def Tree.enter (tree : Tree) (place : Place) (name : List Char) : Except ReadError Place :=
  match place with
  | .file _ => .error .notDirectory
  | .directory way =>
    if isHere name then .ok (.directory way)
    else if isAbove name then .ok (if way.isEmpty then .above else .directory way.dropLast)
    else if nameLimit < (String.ofList name).utf8ByteSize then .error .nameTooLong
    else
      match tree.place? (way ++ [name]) with
      | some place => .ok place
      | none => .error .notFound
  | .above => if isHere name || isAbove name then .ok .above else .error .notFound

/-- The content of the file that a path leads to. -/
def Tree.read (tree : Tree) (path : String) : Except ReadError String :=
  if path.isEmpty then .error .notFound
  else if path.toList.contains '\x00' then .error .nulInPath
  else if pathLimit < path.utf8ByteSize then .error .nameTooLong
  else
    let start := if path.toList.head? = some '/' then Place.above else .directory []
    match (names path.toList).foldlM tree.enter start with
    | .ok (.file content) => .ok content
    | .ok _ => .error .isDirectory
    | .error e => .error e

/-- The disk that holds only these files. -/
def ofFiles (files : List (String × String)) : Disk :=
  Tree.read (files.map fun (path, content) =>
    ((names path.toList).filter (!isHere ·), content))

end Disk

end Policy
