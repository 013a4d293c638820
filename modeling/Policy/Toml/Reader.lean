import Policy.Toml.Scalar
import Policy.Toml.Table

namespace Policy.Toml

def isBareChar (c : Char) : Bool := c.isAlphanum || c = '_' || c = '-'

def readSimpleKey (cs : List Char) : Option (String × List Char) :=
  match readLineString? cs with
  | some found => some found
  | none =>
    let name := cs.takeWhile isBareChar
    if name.isEmpty then none else some (String.ofList name, cs.dropWhile isBareChar)

/-- Keys with dots between them, and the blanks behind the last one. -/
def readKey : (room : Nat) → List Char → Option (List String × List Char)
  | 0, _ => none
  | room + 1, cs => do
    let (name, rest) ← readSimpleKey (skipSpace cs)
    match skipSpace rest with
    | '.' :: rest => do
      let (names, rest) ← readKey room rest
      pure (name :: names, rest)
    | rest => pure ([name], rest)

/-- A key and what stands behind its equals sign. -/
def readAssigned (cs : List Char) : Option (List String × List Char) := do
  let (key, rest) ← readKey (cs.length + 1) cs
  match rest with
  | '=' :: rest => some (key, skipSpace rest)
  | _ => none

/-- Items of an array up to the closing bracket. A comma may stand behind the last one. -/
def readItems (value : List Char → Option (Toml × List Char)) :
    (room : Nat) → List Char → Option (List Toml × List Char)
  | 0, _ => none
  | room + 1, cs =>
    match skipLines cs.length cs with
    | ']' :: rest => some ([], rest)
    | cs => do
      let (x, rest) ← value cs
      match skipLines rest.length rest with
      | ',' :: rest => do
        let (xs, rest) ← readItems value room rest
        pure (x :: xs, rest)
      | ']' :: rest => pure ([x], rest)
      | _ => none

/-- Members of a table in braces. All of them stand on one line, with a comma between two. -/
def readMembers (value : List Char → Option (Toml × List Char)) :
    (room : Nat) → Entries → List Char → Option (Entries × List Char)
  | 0, _, _ => none
  | room + 1, seen, cs => do
    let (key, rest) ← readAssigned cs
    let (v, rest) ← value rest
    let seen ← seen.putDotted v true key
    match skipSpace rest with
    | ',' :: rest => readMembers value room seen rest
    | '\x7d' :: rest => pure (seen, rest)
    | _ => none

/-- Reads a value inside of which so many arrays and tables may be open. -/
def readValue : (levels : Nat) → List Char → Option (Toml × List Char)
  | levels, cs =>
    match readString? cs with
    | some (text, rest) => some (string text, rest)
    | none =>
      match cs, levels with
      | '"' :: _, _ => none
      | '\x27' :: _, _ => none
      | '[' :: _, 0 => none
      | '\x7b' :: _, 0 => none
      | '[' :: rest, levels + 1 => do
        let (xs, rest) ← readItems (readValue levels) (rest.length + 1) rest
        pure (array xs, rest)
      | '\x7b' :: rest, levels + 1 =>
        match skipSpace rest with
        | '\x7d' :: rest => some (table [], rest)
        | rest => do
          let (entries, rest) ← readMembers (readValue levels) (rest.length + 1) [] rest
          pure (table (membersOf entries), rest)
      | cs, _ => readScalar cs

def levelLimit : Nat := 79

/-- A file up to some line: what has been read, and the path of the header above. -/
structure State where
  entries : Entries
  path : List String

/-- Opens the table that a header names. -/
def State.header (state : State) (key : List String)
    (openLast : String → Entries → Option Entries) : Option State := do
  let last ← key.getLast?
  let entries ← state.entries.alongHeader (openLast last) key.dropLast
  pure ⟨entries, key⟩

def State.assign (state : State) (key : List String) (v : Toml) : Option State := do
  let entries ← state.entries.alongHeader (·.putDotted v true key) state.path
  pure ⟨entries, state.path⟩

/-- Reads a line that is neither empty nor a comment, up to what may end it. -/
def readLine (state : State) (cs : List Char) : Option (State × List Char) :=
  match cs with
  | '[' :: '[' :: rest => do
    let (key, rest) ← readKey (rest.length + 1) rest
    match rest with
    | ']' :: ']' :: rest => do
      let state ← state.header key Entries.openNext
      pure (state, rest)
    | _ => none
  | '[' :: rest => do
    let (key, rest) ← readKey (rest.length + 1) rest
    match rest with
    | ']' :: rest => do
      let state ← state.header key Entries.openTable
      pure (state, rest)
    | _ => none
  | cs => do
    let (key, rest) ← readAssigned cs
    let (v, rest) ← readValue levelLimit rest
    let state ← state.assign key v
    pure (state, rest)

def readLinesFrom : (room : Nat) → State → List Char → Option State
  | 0, _, _ => none
  | room + 1, state, cs =>
    match skipLines cs.length cs with
    | [] => some state
    | cs => do
      let (state, rest) ← readLine state cs
      let rest ← finishLine? rest
      readLinesFrom room state rest

def dropMark : List Char → List Char
  | '\ufeff' :: cs => cs
  | cs => cs

/-- The members of the table that a file describes, if it is well formed. -/
def read (text : String) : Option (List (String × Toml)) :=
  (readLinesFrom (text.length + 1) ⟨[], []⟩ (dropMark text.toList)).map fun state =>
    membersOf state.entries

end Policy.Toml
