import Policy.Source.Refusal
import Policy.Unicode.Blank

namespace Policy.Source

/-- What a text begins with: layout between tokens, or a token and the number of columns it
takes. -/
inductive Lead where
  | layout (skipped : List Char)
  | token (t : Token) (width : Nat)
  deriving DecidableEq

namespace Lead

/-- Splits the text behind the start of a block comment at the end of the comment. -/
def blockEnd? : List Char → Option (List Char × List Char)
  | [] => none
  | '*' :: '/' :: rest => some (['*', '/'], rest)
  | c :: cs => (blockEnd? cs).map fun (body, rest) => (c :: body, rest)

/-- What a backslash and this character stand for. A pair without a meaning stands for itself. -/
def escape : Char → List Char
  | '"' => ['"']
  | '\\' => ['\\']
  | 'n' => ['\n']
  | 't' => ['\t']
  | c => ['\\', c]

/-- Reads a string behind its opening quote: its content, the number of characters read with the
closing quote, and the rest. -/
def string : List Char → Except Cause (List Char × Nat × List Char)
  | [] => .error .unclosedString
  | '\n' :: _ => .error .unclosedString
  | '"' :: rest => .ok ([], 1, rest)
  | ['\\'] => .error .unclosedEscape
  | '\\' :: c :: rest => do
    let (content, width, rest) ← string rest
    pure (escape c ++ content, width + 2, rest)
  | c :: rest => do
    let (content, width, rest) ← string rest
    pure (c :: content, width + 1, rest)

/-- Reads the digits of a number that starts with `sign`. -/
def number (sign : List Char) (cs : List Char) : Except Cause (Lead × List Char) :=
  let written := sign ++ cs.takeWhile Char.isDigit
  match Decimal.read? written >>= Number.ofInt? with
  | some n => .ok (token (.int n) written.length, cs.dropWhile Char.isDigit)
  | none => .error (.integerRange (String.ofList written))

def isWordChar (c : Char) : Bool := c.isAlphanum || c = '_'

def word (cs : List Char) : Lead × List Char :=
  let written := cs.takeWhile isWordChar
  (token (.ofWord (String.ofList written)) written.length, cs.dropWhile isWordChar)

def mark? : List Char → Option (Mark × Nat × List Char)
  | '!' :: '=' :: rest => some (.neq, 2, rest)
  | '<' :: '=' :: rest => some (.lte, 2, rest)
  | '>' :: '=' :: rest => some (.gte, 2, rest)
  | '=' :: rest => some (.eq, 1, rest)
  | '<' :: rest => some (.lt, 1, rest)
  | '>' :: rest => some (.gt, 1, rest)
  | '+' :: rest => some (.plus, 1, rest)
  | '-' :: rest => some (.minus, 1, rest)
  | '*' :: rest => some (.star, 1, rest)
  | '/' :: rest => some (.slash, 1, rest)
  | '\x7b' :: rest => some (.lbrace, 1, rest)
  | '\x7d' :: rest => some (.rbrace, 1, rest)
  | '(' :: rest => some (.lparen, 1, rest)
  | ')' :: rest => some (.rparen, 1, rest)
  | ',' :: rest => some (.comma, 1, rest)
  | _ => none

/-- Whether a number starts here. A minus belongs to the number unless a term ended before it. -/
def startsNumber (afterTerm : Bool) : List Char → Bool
  | '-' :: c :: _ => !afterTerm && c.isDigit
  | c :: _ => c.isDigit
  | [] => false

def ofPlain (afterTerm : Bool) (cs : List Char) : Except Cause (Lead × List Char) :=
  if startsNumber afterTerm cs then
    match cs with
    | '-' :: rest => number ['-'] rest
    | _ => number [] cs
  else
    match mark? cs, cs with
    | some (m, width, rest), _ => .ok (token (.mark m) width, rest)
    | none, c :: _ => if c.isAlpha then .ok (word cs) else .error (.strayCharacter c)
    | none, [] => .ok (layout [], [])

/-- Splits a text that is not empty into what it begins with and the rest. -/
def of (afterTerm : Bool) : List Char → Except Cause (Lead × List Char)
  | '/' :: '/' :: rest =>
    .ok (layout ('/' :: '/' :: rest.takeWhile (· ≠ '\n')), rest.dropWhile (· ≠ '\n'))
  | '/' :: '*' :: rest =>
    match blockEnd? rest with
    | some (body, rest) => .ok (layout ('/' :: '*' :: body), rest)
    | none => .error .unclosedComment
  | '"' :: rest => do
    let (content, width, rest) ← string rest
    pure (token (.str (String.ofList content)) (width + 1), rest)
  | c :: rest => if Unicode.isBlank c then .ok (layout [c], rest) else ofPlain afterTerm (c :: rest)
  | [] => .ok (layout [], [])

end Lead

/-- Scans at most `room` leads from a position on. -/
def scanFrom : (room : Nat) → Position → (afterTerm : Bool) → List Char →
    Except Refusal (List Located)
  | 0, p, _, _ => .ok [⟨.eof, p⟩]
  | _ + 1, p, _, [] => .ok [⟨.eof, p⟩]
  | room + 1, p, afterTerm, cs =>
    match Lead.of afterTerm cs with
    | .error cause => .error ⟨p, cause⟩
    | .ok (.layout skipped, rest) => scanFrom room (p.behind skipped) afterTerm rest
    | .ok (.token t width, rest) => do
      let tokens ← scanFrom room (p.right width) t.endsTerm rest
      pure (⟨t, p⟩ :: tokens)

/-- The tokens of a policy text. Every lead takes a character, so there are no more leads than
characters. -/
def scan (text : String) : Except Refusal (List Located) :=
  scanFrom text.toList.length .start false text.toList

end Policy.Source
