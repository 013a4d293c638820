import Policy.Pattern.Escape

namespace Policy.Pattern

/-- The ASCII classes that brackets can name. -/
def posixClass? : String → Option (List (Char × Char))
  | "alnum" => some [('0', '9'), ('A', 'Z'), ('a', 'z')]
  | "alpha" => some [('A', 'Z'), ('a', 'z')]
  | "ascii" => some [('\x00', '\x7f')]
  | "blank" => some [('\t', '\t'), (' ', ' ')]
  | "cntrl" => some [('\x00', '\x1f'), ('\x7f', '\x7f')]
  | "digit" => some [('0', '9')]
  | "graph" => some [('!', '~')]
  | "lower" => some [('a', 'z')]
  | "print" => some [(' ', '~')]
  | "punct" => some [('!', '/'), (':', '@'), ('[', '\x60'), ('\x7b', '~')]
  | "space" => some [('\t', '\r'), (' ', ' ')]
  | "upper" => some [('A', 'Z')]
  | "word" => some [('0', '9'), ('A', 'Z'), ('_', '_'), ('a', 'z')]
  | "xdigit" => some [('0', '9'), ('A', 'F'), ('a', 'f')]
  | _ => none

/-- A class such as `[:alpha:]`, read from behind its opening bracket. -/
def readPosix? (cs : List Char) : Option (SetItem × List Char) :=
  match cs with
  | ':' :: cs =>
    let (negated, cs) := match cs with
      | '^' :: cs => (true, cs)
      | cs => (false, cs)
    match cs.dropWhile (· ≠ ':') with
    | ':' :: ']' :: rest =>
      (posixClass? (String.ofList (cs.takeWhile (· ≠ ':')))).map (.posix · negated, rest)
    | _ => none
  | _ => none

/-- A character or class as one member of a set. -/
def Escape.member? : Escape → Option SetItem
  | literal c => some (.range c c)
  | shorthand s negated => some (.shorthand s negated)
  | property p negated => some (.property p negated)
  | anchor _ => none

def readMember (verbose : Bool) : List Char → Option (Escape × List Char)
  | [] => none
  | '\\' :: cs => readEscape verbose cs
  | c :: cs => some (.literal c, cs)

/-- The next character that would not be skipped behind a hyphen. -/
def peekBehind (verbose : Bool) (cs : List Char) : Option Char :=
  if verbose then
    match cs.dropWhile Unicode.isBlank with
    | '#' :: cs => (cs.dropWhile Unicode.isBlank).head?
    | cs => cs.head?
  else cs.head?

/-- A single member, or a range between two characters. -/
def readRange (verbose : Bool) (cs : List Char) : Option (SetItem × List Char) := do
  let (first, rest) ← readMember verbose cs
  let single := first.member?.map (·, skip verbose rest)
  match skip verbose rest with
  | [] => none
  | '-' :: behind =>
    let next := peekBehind verbose behind
    if next = some ']' || next = some '-' then single
    else
      let (last, rest) ← readMember verbose (skip verbose behind)
      match first, last with
      | .literal low, .literal high =>
        if low ≤ high then some (.range low high, rest) else none
      | _, _ => none
  | _ => single

/-- The items read so far, last one first, as one item. -/
def unionOf : List SetItem → SetItem
  | [item] => item
  | items => .union items.reverse

/-- What stands in front of an operator, together with the operator. -/
abbrev Pending := Option (SetItem × SetOp)

def Pending.close : Pending → SetItem → SetItem
  | some (lhs, op), rhs => .combine op lhs rhs
  | none, item => item

/-- Hyphens at the front of a set stand for themselves. -/
def readHyphens (verbose : Bool) :
    (room : Nat) → List SetItem → List Char → Option (List SetItem × List Char)
  | 0, _, _ => none
  | room + 1, items, cs =>
    match cs with
    | [] => none
    | '-' :: cs => readHyphens verbose room (.range '-' '-' :: items) (skip verbose cs)
    | cs => some (items, cs)

/-- The front of a set: a negation, hyphens or a closing bracket that stand for themselves. -/
def readSetStart (verbose : Bool) (cs : List Char) : Option (Bool × List SetItem × List Char) := do
  let cs := skip verbose cs
  let (negated, cs) := match cs with
    | '^' :: cs => (true, skip verbose cs)
    | cs => (false, cs)
  let (items, cs) ← readHyphens verbose (cs.length + 1) [] cs
  match items, cs with
  | [], ']' :: cs =>
    let cs := skip verbose cs
    if cs.isEmpty then none else some (negated, [.range ']' ']'], cs)
  | items, cs => some (negated, items, cs)

/-- Reads the items of a set up to its closing bracket. Sets in it are read by the same rule. -/
def readSetItems (verbose : Bool) : (room : Nat) → Pending → List SetItem → List Char →
    Option (SetItem × List Char)
  | 0, _, _, _ => none
  | room + 1, pending, items, cs =>
    match skip verbose cs with
    | [] => none
    | '[' :: rest =>
      match readPosix? rest with
      | some (item, rest) => readSetItems verbose room pending (item :: items) rest
      | none => do
        let (negated, front, rest) ← readSetStart verbose rest
        let (inner, rest) ← readSetItems verbose room none front rest
        readSetItems verbose room pending (.bracket negated inner :: items) rest
    | ']' :: rest => some (pending.close (unionOf items), rest)
    | '&' :: '&' :: rest =>
      readSetItems verbose room (some (pending.close (unionOf items), .both)) [] rest
    | '-' :: '-' :: rest =>
      readSetItems verbose room (some (pending.close (unionOf items), .minus)) [] rest
    | '~' :: '~' :: rest =>
      readSetItems verbose room (some (pending.close (unionOf items), .differ)) [] rest
    | cs => do
      let (item, rest) ← readRange verbose cs
      readSetItems verbose room pending (item :: items) rest

/-- A set, read from behind its opening bracket. -/
def readSet (verbose : Bool) (cs : List Char) : Option (SetItem × List Char) := do
  let (negated, items, rest) ← readSetStart verbose cs
  let (inner, rest) ← readSetItems verbose (rest.length + 1) none items rest
  pure (.bracket negated inner, rest)

end Policy.Pattern
