import Policy.Pattern.Brackets

namespace Policy.Pattern

def wordLimit : Nat := 4294967295

/-- Digits of a repetition count. Blanks are allowed around them. -/
def readDigits (verbose : Bool) : (room : Nat) → List Char → List Char × List Char
  | 0, cs => ([], cs)
  | room + 1, c :: cs =>
    if c.isDigit then
      let (digits, rest) := readDigits verbose room (skip verbose cs)
      (c :: digits, rest)
    else ([], (c :: cs).dropWhile Unicode.isBlank)
  | _, [] => ([], [])

/-- A repetition count. It is missing where there are no digits. -/
def readCount (verbose : Bool) (cs : List Char) : Option (Option Nat × List Char) :=
  let (digits, rest) := readDigits verbose (cs.length + 1) (cs.dropWhile Unicode.isBlank)
  let rest := skip verbose rest
  if digits.isEmpty then some (none, rest)
  else
    let n := Nat.ofDigitChars 10 digits 0
    if n ≤ wordLimit then some (some n, rest) else none

/-- The bounds of a repetition, read from behind the opening brace to behind the closing one. -/
def readBounds (verbose : Bool) (cs : List Char) : Option (Nat × Option Nat × List Char) := do
  let (least, rest) ← readCount verbose (skip verbose cs)
  let least ← least
  match rest with
  | '\x7d' :: rest => some (least, some least, rest)
  | ',' :: rest =>
    match skip verbose rest with
    | '\x7d' :: rest => some (least, none, rest)
    | rest => do
      let (most, rest) ← readCount verbose rest
      let most ← most
      match rest with
      | '\x7d' :: rest => if least ≤ most then some (least, some most, rest) else none
      | _ => none
  | _ => none

/-- A question mark behind a repetition asks for the shortest text and does not change what is
matched. -/
def dropLazy : List Char → List Char
  | '?' :: cs => cs
  | cs => cs

/-- Puts a repetition around the last item. Switches and the start of a sequence have none. -/
def repeatLast (least : Nat) (most : Option Nat) : List Node → Option (List Node)
  | [] => none
  | .flags _ :: _ => none
  | node :: items => some (.repeated node least most :: items)

def isNameStart (c : Char) : Bool := c = '_' || Unicode.isAlphabetic c

def isNameChar (c : Char) : Bool :=
  c = '_' || c = '.' || c = '[' || c = ']' || Unicode.isAlphanumeric c

/-- The name of a group up to the closing angle bracket. -/
def readGroupName (cs : List Char) : Option (String × List Char) :=
  match cs.takeWhile (· ≠ '>'), cs.dropWhile (· ≠ '>') with
  | c :: name, '>' :: rest =>
    if isNameStart c && name.all isNameChar then some (String.ofList (c :: name), rest) else none
  | _, _ => none

/-- Switches up to the closing parenthesis or colon, which is left in place. -/
def readFlags : (seen : FlagChange) → (negated dangling : Bool) → List Char →
    Option (FlagChange × List Char)
  | _, _, _, [] => none
  | seen, _, dangling, ':' :: cs => if dangling then none else some (seen, ':' :: cs)
  | seen, _, dangling, ')' :: cs => if dangling then none else some (seen, ')' :: cs)
  | seen, negated, _, '-' :: cs => if negated then none else readFlags seen true true cs
  | seen, negated, _, c :: cs => do
    let flag ← Flag.ofLetter? c
    if seen.any (·.1 = flag) then none else readFlags (seen ++ [(flag, !negated)]) negated false cs

/-- What an opening parenthesis starts. -/
inductive Opening where
  | flags (change : FlagChange)
  | group (change : FlagChange) (name : Option String)
  deriving DecidableEq

/-- Reads what stands behind an opening parenthesis up to the content of the group. -/
def readOpening (cs : List Char) : Option (Opening × List Char) :=
  match cs with
  | '?' :: '=' :: _ | '?' :: '!' :: _ | '?' :: '<' :: '=' :: _ | '?' :: '<' :: '!' :: _ => none
  | '?' :: 'P' :: '<' :: cs | '?' :: '<' :: cs => do
    let (name, rest) ← readGroupName cs
    some (.group [] (some name), rest)
  | '?' :: cs => do
    let (change, rest) ← readFlags [] false false cs
    match rest with
    | ')' :: rest => if change.isEmpty then none else some (.flags change, rest)
    | rest => some (.group change none, rest.tail)
  | cs => some (.group [] none, cs)

/-- The items read so far, last one first, as one node. -/
def sequenceOf : List Node → Node
  | [] => .empty
  | [node] => node
  | nodes => .seq nodes.reverse

/-- The branches read so far, last one first, as one node. -/
def choiceOf : List Node → Node
  | [] => .empty
  | [node] => node
  | nodes => .alt nodes.reverse

/-- The state in which a pattern is read: the mode, and the names of groups so far. -/
structure Mode where
  verbose : Bool
  names : List String
  deriving DecidableEq

def Escape.node : Escape → Node
  | literal c => .literal c
  | anchor a => .anchor a
  | shorthand s negated => .set (.shorthand s negated)
  | property p negated => .set (.property p negated)

/-- Reads branches and their items, up to the end or a closing parenthesis, which is left in place.
The branches and items in front are given, last one first. -/
def readNodes : (room : Nat) → Mode → (branches items : List Node) → List Char →
    Option (Node × Mode × List Char)
  | 0, _, _, _, _ => none
  | room + 1, mode, branches, items, cs =>
    match skip mode.verbose cs with
    | [] => some (choiceOf (sequenceOf items :: branches), mode, [])
    | ')' :: rest => some (choiceOf (sequenceOf items :: branches), mode, ')' :: rest)
    | '|' :: rest => readNodes room mode (sequenceOf items :: branches) [] rest
    | '(' :: rest => do
      match ← readOpening (skip mode.verbose rest) with
      | (.flags change, rest) =>
        let mode := { mode with verbose := change.value .verbose mode.verbose }
        readNodes room mode branches (.flags change :: items) rest
      | (.group change name, rest) =>
        if name.any mode.names.contains then none
        else
          let names := name.toList ++ mode.names
          let inside := ⟨change.value .verbose mode.verbose, names⟩
          let (inner, after, rest) ← readNodes room inside [] [] rest
          match rest with
          | ')' :: rest =>
            readNodes room ⟨mode.verbose, after.names⟩ branches (.group change inner :: items) rest
          | _ => none
    | '[' :: rest => do
      let (item, rest) ← readSet mode.verbose rest
      readNodes room mode branches (.set item :: items) rest
    | '?' :: rest => do
      let items ← repeatLast 0 (some 1) items
      readNodes room mode branches items (dropLazy rest)
    | '*' :: rest => do
      let items ← repeatLast 0 none items
      readNodes room mode branches items (dropLazy rest)
    | '+' :: rest => do
      let items ← repeatLast 1 none items
      readNodes room mode branches items (dropLazy rest)
    | '\x7b' :: rest => do
      let (least, most, rest) ← readBounds mode.verbose rest
      let items ← repeatLast least most items
      readNodes room mode branches items (dropLazy (skip mode.verbose rest))
    | '\\' :: rest => do
      let (escape, rest) ← readEscape mode.verbose rest
      readNodes room mode branches (escape.node :: items) rest
    | '.' :: rest => readNodes room mode branches (.dot :: items) rest
    | '^' :: rest => readNodes room mode branches (.anchor .lineStart :: items) rest
    | '$' :: rest => readNodes room mode branches (.anchor .lineEnd :: items) rest
    | c :: rest => readNodes room mode branches (.literal c :: items) rest

/-- The deepest nesting of a pattern. -/
def heightLimit : Nat := 250

/-- The pattern that a text writes, if it writes one. -/
def parse? (text : List Char) : Option Node :=
  match readNodes (text.length + 1) ⟨false, []⟩ [] [] text with
  | some (node, _, []) => if node.height ≤ heightLimit then some node else none
  | _ => none

end Policy.Pattern
