namespace Policy.Toml

/-- Characters within a line: tabs, and all but control characters. -/
def isLineChar (c : Char) : Bool := c = '\t' || (32 ≤ c.toNat && c.toNat ≠ 127)

def isSpace (c : Char) : Bool := c = ' ' || c = '\t'

def skipSpace (cs : List Char) : List Char := cs.dropWhile isSpace

/-- What stands behind the end of a line. The end of the text ends a line too. -/
def lineEnd? : List Char → Option (List Char)
  | [] => some []
  | '\n' :: cs => some cs
  | '\r' :: '\n' :: cs => some cs
  | _ => none

/-- What stands behind a comment, which reaches to the end of its line. -/
def dropComment : List Char → List Char
  | '#' :: cs => cs.dropWhile isLineChar
  | cs => cs

/-- What stands behind blanks, a comment and the end of the line. -/
def finishLine? (cs : List Char) : Option (List Char) := lineEnd? (dropComment (skipSpace cs))

/-- What stands behind any number of blanks, comments and line ends. -/
def skipLines : (room : Nat) → List Char → List Char
  | 0, cs => cs
  | room + 1, cs =>
    match dropComment (skipSpace cs) with
    | '\n' :: rest => skipLines room rest
    | '\r' :: '\n' :: rest => skipLines room rest
    | rest => rest

def hexDigit? (c : Char) : Option Nat :=
  if '0' ≤ c && c ≤ '9' then some (c.toNat - 48)
  else if 'a' ≤ c && c ≤ 'f' then some (c.toNat - 87)
  else if 'A' ≤ c && c ≤ 'F' then some (c.toNat - 55)
  else none

/-- The character with a number of exactly so many hexadecimal digits. -/
def readCode : (count value : Nat) → List Char → Option (Char × List Char)
  | 0, value, cs => if value.isValidChar then some (Char.ofNat value, cs) else none
  | count + 1, value, c :: cs => do
    let d ← hexDigit? c
    readCode count (value * 16 + d) cs
  | _, _, [] => none

/-- The character that stands behind a backslash. -/
def readEscape : List Char → Option (Char × List Char)
  | 'b' :: cs => some ('\x08', cs)
  | 't' :: cs => some ('\t', cs)
  | 'n' :: cs => some ('\n', cs)
  | 'f' :: cs => some ('\x0c', cs)
  | 'r' :: cs => some ('\r', cs)
  | '"' :: cs => some ('"', cs)
  | '\\' :: cs => some ('\\', cs)
  | 'u' :: cs => readCode 4 0 cs
  | 'U' :: cs => readCode 8 0 cs
  | _ => none

/-- The rest of a string in double quotes. -/
def readQuoted : (room : Nat) → List Char → Option (List Char × List Char)
  | 0, _ => none
  | room + 1, cs =>
    match cs with
    | '"' :: rest => some ([], rest)
    | '\\' :: rest => do
      let (c, rest) ← readEscape rest
      let (cs, rest) ← readQuoted room rest
      pure (c :: cs, rest)
    | c :: rest =>
      if isLineChar c then do
        let (cs, rest) ← readQuoted room rest
        pure (c :: cs, rest)
      else none
    | [] => none

/-- The rest of a string in single quotes, which has no escapes. -/
def readLiteral (cs : List Char) : Option (List Char × List Char) :=
  let content := cs.takeWhile (· ≠ '\x27')
  match cs.dropWhile (· ≠ '\x27') with
  | _ :: rest => if content.all isLineChar then some (content, rest) else none
  | [] => none

/-- Three quotes or more end a string of several lines. Those in excess, two at most, belong to
it. -/
def closing? (quote : Char) (cs : List Char) : Option (List Char × List Char) :=
  let run := (cs.takeWhile (· = quote)).length
  if 3 ≤ run then some (List.replicate (min (run - 3) 2) quote, cs.drop (min run 5)) else none

/-- A line break within a string. -/
def breakIn? : List Char → Option (List Char)
  | '\n' :: cs => some cs
  | '\r' :: '\n' :: cs => some cs
  | _ => none

def isSpaceOrBreak (c : Char) : Bool := isSpace c || c = '\n' || c = '\r'

/-- What stands behind a backslash at the end of a line: the next line that is not blank. -/
def continued? (cs : List Char) : Option (List Char) :=
  (breakIn? (skipSpace cs)).map (·.dropWhile isSpaceOrBreak)

/-- The rest of a string of several lines. Escapes count only in double quotes. -/
def readLines (quote : Char) : (room : Nat) → List Char → Option (List Char × List Char)
  | 0, _ => none
  | room + 1, cs =>
    match closing? quote cs with
    | some found => some found
    | none =>
      match breakIn? cs with
      | some rest => do
        let (cs, rest) ← readLines quote room rest
        pure ('\n' :: cs, rest)
      | none =>
        match cs with
        | [] => none
        | c :: rest =>
          if c = '\\' && quote = '"' then
            match continued? rest with
            | some rest => readLines quote room rest
            | none => do
              let (c, rest) ← readEscape rest
              let (cs, rest) ← readLines quote room rest
              pure (c :: cs, rest)
          else if isLineChar c then do
            let (cs, rest) ← readLines quote room rest
            pure (c :: cs, rest)
          else none

/-- A line break directly behind the opening quotes does not count. -/
def dropBreak (cs : List Char) : List Char := (breakIn? cs).getD cs

def asText (found : Option (List Char × List Char)) : Option (String × List Char) :=
  found.map fun (cs, rest) => (String.ofList cs, rest)

/-- A string on one line. -/
def readLineString? : List Char → Option (String × List Char)
  | '"' :: cs => asText (readQuoted (cs.length + 1) cs)
  | '\x27' :: cs => asText (readLiteral cs)
  | _ => none

/-- A string in any of the four kinds of quotes. -/
def readString? : List Char → Option (String × List Char)
  | '"' :: '"' :: '"' :: cs => asText (readLines '"' (cs.length + 1) (dropBreak cs))
  | '\x27' :: '\x27' :: '\x27' :: cs => asText (readLines '\x27' (cs.length + 1) (dropBreak cs))
  | cs => readLineString? cs

end Policy.Toml
