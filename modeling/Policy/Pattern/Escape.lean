import Policy.Pattern.Node

namespace Policy.Pattern

mutual

/-- What stands behind blanks and comments. -/
def skipBlanks : List Char → List Char
  | [] => []
  | '#' :: cs => skipComment cs
  | c :: cs => if Unicode.isBlank c then skipBlanks cs else c :: cs

def skipComment : List Char → List Char
  | [] => []
  | '\n' :: cs => skipBlanks cs
  | _ :: cs => skipComment cs

end

/-- Blanks and comments count only outside of the verbose mode. -/
def skip (verbose : Bool) (cs : List Char) : List Char := if verbose then skipBlanks cs else cs

/-- What a backslash and the characters behind it stand for. -/
inductive Escape where
  | literal (c : Char)
  | anchor (a : Anchor)
  | shorthand (s : Shorthand) (negated : Bool)
  | property (p : Property) (negated : Bool)
  deriving DecidableEq

def hexDigit? (c : Char) : Option Nat :=
  if '0' ≤ c && c ≤ '9' then some (c.toNat - 48)
  else if 'a' ≤ c && c ≤ 'f' then some (c.toNat - 87)
  else if 'A' ≤ c && c ≤ 'F' then some (c.toNat - 55)
  else none

def charOf? (n : Nat) : Option Char := if n.isValidChar then some (Char.ofNat n) else none

/-- Exactly `count` hexadecimal digits. -/
def readHexDigits (verbose : Bool) :
    (count value : Nat) → List Char → Option (Nat × List Char)
  | 0, value, cs => some (value, cs)
  | count + 1, value, c :: cs => do
    let d ← hexDigit? c
    readHexDigits verbose count (value * 16 + d) (skip verbose cs)
  | _, _, [] => none

/-- Hexadecimal digits up to the closing brace. -/
def readHexBrace (verbose : Bool) :
    (room : Nat) → (value : Option Nat) → List Char → Option (Nat × List Char)
  | 0, _, _ => none
  | room + 1, value, cs =>
    match skip verbose cs with
    | '\x7d' :: rest => value.map (·, skip verbose rest)
    | c :: rest => do
      let d ← hexDigit? c
      readHexBrace verbose room (some (value.getD 0 * 16 + d)) rest
    | [] => none

def readHex (verbose : Bool) (count : Nat) (cs : List Char) : Option (Escape × List Char) := do
  let (n, rest) ← match skip verbose cs with
    | '\x7b' :: rest => readHexBrace verbose (rest.length + 1) none rest
    | rest => readHexDigits verbose count 0 rest
  let c ← charOf? n
  pure (.literal c, rest)

/-- The name of a property up to the closing brace. -/
def readPropertyName (verbose : Bool) :
    (room : Nat) → List Char → Option (List Char × List Char)
  | 0, _ => none
  | room + 1, cs =>
    match skip verbose cs with
    | '\x7d' :: rest => some ([], rest)
    | c :: rest => do
      let (name, rest) ← readPropertyName verbose room rest
      pure (c :: name, rest)
    | [] => none

/-- Splits at the first place where `sep` stands. -/
def cutAt (sep : List Char) : List Char → Option (List Char × List Char)
  | [] => none
  | c :: cs =>
    if sep.isPrefixOf (c :: cs) then some ([], (c :: cs).drop sep.length)
    else (cutAt sep cs).map fun (l, r) => (c :: l, r)

/-- The property that a text in braces stands for, and whether the text itself negates it. -/
def propertyOf? (text : List Char) : Option (Property × Bool) :=
  match cutAt ['!', '='] text with
  | some (name, value) =>
    (Property.ofPair? (String.ofList name) (String.ofList value)).map (·, true)
  | none =>
    match cutAt [':'] text <|> cutAt ['='] text with
    | some (name, value) =>
      (Property.ofPair? (String.ofList name) (String.ofList value)).map (·, false)
    | none => (Property.ofName? (String.ofList text)).map (·, false)

def readProperty (verbose negated : Bool) (cs : List Char) : Option (Escape × List Char) :=
  match skip verbose cs with
  | '\x7b' :: rest => do
    let (text, rest) ← readPropertyName verbose (rest.length + 1) rest
    let (p, inverse) ← propertyOf? text
    pure (.property p (negated != inverse), rest)
  | '\\' :: _ => none
  | c :: rest => do
    let p ← Property.ofName? c.toString
    pure (.property p negated, skip verbose rest)
  | [] => none

def isEdgeChar (c : Char) : Bool := c.isAlpha || c = '-'

/-- Letters and hyphens of the name of a word edge. -/
def readEdgeName (verbose : Bool) : (room : Nat) → List Char → List Char × List Char
  | 0, cs => ([], cs)
  | room + 1, c :: cs =>
    if isEdgeChar c then
      let (name, rest) := readEdgeName verbose room (skip verbose cs)
      (c :: name, rest)
    else ([], c :: cs)
  | _, [] => ([], [])

/-- A word edge, which may be told in braces. Other braces are left alone. -/
def readWordEdge (verbose : Bool) (cs : List Char) : Option (Escape × List Char) :=
  match cs with
  | '\x7b' :: inner =>
    match skip verbose inner with
    | [] => none
    | c :: rest =>
      if isEdgeChar c then
        match readEdgeName verbose (rest.length + 1) (c :: rest) with
        | (name, '\x7d' :: rest) =>
          match String.ofList name with
          | "start" => some (.anchor .wordStart, rest)
          | "end" => some (.anchor .wordEnd, rest)
          | "start-half" => some (.anchor .wordStartHalf, rest)
          | "end-half" => some (.anchor .wordEndHalf, rest)
          | _ => none
        | _ => none
      else some (.anchor .wordEdge, cs)
  | cs => some (.anchor .wordEdge, cs)

/-- Whether a backslash in front of the character leaves it as it is. -/
def isEscapable (c : Char) : Bool :=
  c.toNat < 128 && !c.isAlphanum && c ≠ '<' && c ≠ '>'

/-- Reads what follows a backslash. -/
def readEscape (verbose : Bool) : List Char → Option (Escape × List Char)
  | [] => none
  | 'x' :: cs => readHex verbose 2 cs
  | 'u' :: cs => readHex verbose 4 cs
  | 'U' :: cs => readHex verbose 8 cs
  | 'p' :: cs => readProperty verbose false cs
  | 'P' :: cs => readProperty verbose true cs
  | 'd' :: cs => some (.shorthand .digit false, cs)
  | 'D' :: cs => some (.shorthand .digit true, cs)
  | 's' :: cs => some (.shorthand .blank false, cs)
  | 'S' :: cs => some (.shorthand .blank true, cs)
  | 'w' :: cs => some (.shorthand .word false, cs)
  | 'W' :: cs => some (.shorthand .word true, cs)
  | 'a' :: cs => some (.literal '\x07', cs)
  | 'f' :: cs => some (.literal '\x0c', cs)
  | 't' :: cs => some (.literal '\t', cs)
  | 'n' :: cs => some (.literal '\n', cs)
  | 'r' :: cs => some (.literal '\r', cs)
  | 'v' :: cs => some (.literal '\x0b', cs)
  | 'A' :: cs => some (.anchor .textStart, cs)
  | 'z' :: cs => some (.anchor .textEnd, cs)
  | 'b' :: cs => readWordEdge verbose cs
  | 'B' :: cs => some (.anchor .noWordEdge, cs)
  | '<' :: cs => some (.anchor .wordStart, cs)
  | '>' :: cs => some (.anchor .wordEnd, cs)
  | c :: cs => if isEscapable c then some (.literal c, cs) else none

end Policy.Pattern
