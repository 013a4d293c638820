import Policy.Json.Value

namespace Policy.Json

def hexDigit (n : Nat) : Char := (Nat.digitChar n)

/-- A character inside of quotes. Only quotes, backslashes and control characters are escaped. -/
def escape (c : Char) : List Char :=
  match c with
  | '"' => ['\\', '"']
  | '\\' => ['\\', '\\']
  | '\n' => ['\\', 'n']
  | '\r' => ['\\', 'r']
  | '\t' => ['\\', 't']
  | '\x08' => ['\\', 'b']
  | '\x0c' => ['\\', 'f']
  | c =>
    if c.toNat < 32 then
      ['\\', 'u', '0', '0', hexDigit (c.toNat / 16), hexDigit (c.toNat % 16)]
    else [c]

def quote (text : String) : List Char := '"' :: (text.toList.flatMap escape ++ ['"'])

def Number.write : Number → List Char
  | whole i => Decimal.write i
  | float x => x.write

def writeBool (b : Bool) : List Char :=
  if b then ['t', 'r', 'u', 'e'] else ['f', 'a', 'l', 's', 'e']

mutual

/-- The text of a document without layout. -/
def compactChars : Json → List Char
  | null => ['n', 'u', 'l', 'l']
  | bool b => writeBool b
  | number n => n.write
  | string text => quote text
  | array items => '[' :: (compactItems items ++ [']'])
  | object members => '\x7b' :: (compactMembers members ++ ['\x7d'])

def compactItems : List Json → List Char
  | [] => []
  | [x] => compactChars x
  | x :: xs => compactChars x ++ ',' :: compactItems xs

def compactMembers : List (String × Json) → List Char
  | [] => []
  | [(name, x)] => quote name ++ ':' :: compactChars x
  | (name, x) :: members => quote name ++ ':' :: (compactChars x ++ ',' :: compactMembers members)

end

def newline (level : Nat) : List Char := '\n' :: List.replicate (2 * level) ' '

mutual

/-- The text of a document with a line for each item and member. -/
def prettyChars (level : Nat) : Json → List Char
  | null => ['n', 'u', 'l', 'l']
  | bool b => writeBool b
  | number n => n.write
  | string text => quote text
  | array [] => ['[', ']']
  | array (x :: xs) => '[' :: (prettyItems (level + 1) (x :: xs) ++ newline level ++ [']'])
  | object [] => ['\x7b', '\x7d']
  | object (m :: ms) => '\x7b' :: (prettyMembers (level + 1) (m :: ms) ++ newline level ++ ['\x7d'])

def prettyItems (level : Nat) : List Json → List Char
  | [] => []
  | [x] => newline level ++ prettyChars level x
  | x :: xs => newline level ++ prettyChars level x ++ ',' :: prettyItems level xs

def prettyMembers (level : Nat) : List (String × Json) → List Char
  | [] => []
  | [(name, x)] => newline level ++ quote name ++ ':' :: ' ' :: prettyChars level x
  | (name, x) :: members =>
    newline level ++ quote name ++ ':' :: ' ' :: (prettyChars level x ++
      ',' :: prettyMembers level members)

end

def compact (x : Json) : String := String.ofList x.compactChars

def pretty (x : Json) : String := String.ofList (x.prettyChars 0)

end Policy.Json
