import Policy.Json.Value

namespace Policy.Json

def isSpace (c : Char) : Bool := c = ' ' || c = '\n' || c = '\t' || c = '\r'

def skipSpace (cs : List Char) : List Char := cs.dropWhile isSpace

def hexValue? (c : Char) : Option Nat :=
  if '0' ≤ c && c ≤ '9' then some (c.toNat - 48)
  else if 'a' ≤ c && c ≤ 'f' then some (c.toNat - 87)
  else if 'A' ≤ c && c ≤ 'F' then some (c.toNat - 55)
  else none

/-- Four hexadecimal digits. -/
def hexUnit? : List Char → Option (Nat × List Char)
  | a :: b :: c :: d :: rest => do
    let a ← hexValue? a
    let b ← hexValue? b
    let c ← hexValue? c
    let d ← hexValue? d
    pure (((a * 16 + b) * 16 + c) * 16 + d, rest)
  | _ => none

/-- The character that a unit stands for, together with a second unit where the first is the upper
half of a pair. Halves without their partner stand for nothing. -/
def unitChar? (unit : Nat) (rest : List Char) : Option (Char × List Char) :=
  if unit < 0xD800 || 0xDFFF < unit then some (Char.ofNat unit, rest)
  else if unit < 0xDC00 then
    match rest with
    | '\\' :: 'u' :: rest =>
      match hexUnit? rest with
      | some (low, rest) =>
        if 0xDC00 ≤ low && low ≤ 0xDFFF then
          some (Char.ofNat (0x10000 + (unit - 0xD800) * 0x400 + (low - 0xDC00)), rest)
        else none
      | none => none
    | _ => none
  else none

def letter? : Char → Option Char
  | '"' => some '"'
  | '\\' => some '\\'
  | '/' => some '/'
  | 'b' => some '\x08'
  | 'f' => some '\x0c'
  | 'n' => some '\n'
  | 'r' => some '\r'
  | 't' => some '\t'
  | _ => none

/-- What stands between the quotes of a string, read from behind the opening one. The room is no
less than the length of the text. -/
def readChars : (room : Nat) → List Char → Option (List Char × List Char)
  | _, '"' :: rest => some ([], rest)
  | room + 1, '\\' :: 'u' :: rest => do
    let (unit, rest) ← hexUnit? rest
    let (c, rest) ← unitChar? unit rest
    let (cs, rest) ← readChars room rest
    pure (c :: cs, rest)
  | room + 1, '\\' :: l :: rest => do
    let c ← letter? l
    let (cs, rest) ← readChars room rest
    pure (c :: cs, rest)
  | room + 1, c :: rest =>
    if c.toNat < 32 || c = '\\' then none
    else do
      let (cs, rest) ← readChars room rest
      pure (c :: cs, rest)
  | _, _ => none

def readText (room : Nat) (cs : List Char) : Option (String × List Char) := do
  let (content, rest) ← readChars room cs
  pure (String.ofList content, rest)

def wordLimit : Nat := 18446744073709551615

/-- Takes digits into a significand as long as it fits into 64 bits. Gives the significand and the
digits that were left out. -/
def takeDigits : Nat → List Char → Nat × List Char
  | significand, [] => (significand, [])
  | significand, d :: ds =>
    let next := significand * 10 + (d.toNat - 48)
    if next ≤ wordLimit then takeDigits next ds else (significand, d :: ds)

def ofWord (n : Nat) : Float := Float.ofScientific n false 0

def tenTo (n : Nat) : Float := Float.ofScientific 1 false n

/-- Divides by ten `n` times over, at most 308 powers at once. -/
def scaleDown : (room : Nat) → Float → (n : Nat) → Float
  | 0, f, _ => f
  | room + 1, f, n => if n ≤ 308 then f / tenTo n else scaleDown room (f / tenTo 308) (n - 308)

/-- A significand scaled by a power of ten, each step rounded to the nearest number. -/
def scale (significand : Nat) (power : Int) : Option Float :=
  let f := ofWord significand
  if significand = 0 then some f
  else if power < -100000 then some 0
  else if power < 0 then some (scaleDown 400 f power.natAbs)
  else if 308 < power then none
  else
    let g := f * tenTo power.toNat
    if g.isInf then none else some g

/-- A number with a fraction, with an exponent or beyond 64 bits. Digits that do not fit into the
significand only shift it. -/
def floatOf (negative : Bool) (whole fraction : List Char) (power : Int) : Option Number := do
  let (significand, left) := takeDigits 0 whole
  let (significand, dropped) := takeDigits significand fraction
  let shift : Int := left.length - (fraction.length - dropped.length : Nat)
  let f ← scale significand (shift + power)
  let x ← Binary64.ofFloat? (if negative then -f else f)
  pure (.float x)

/-- The whole number of a digit run, if 64 bits hold it. A negative zero is not a whole number. -/
def wholeOf? (negative : Bool) (digits : List Char) : Option Int :=
  let n := Nat.ofDigitChars 10 digits 0
  if negative then
    if 0 < n && n ≤ 9223372036854775808 then some (-(n : Int)) else none
  else if n ≤ wordLimit then some n else none

def isDigit (c : Char) : Bool := c.isDigit

/-- The exponent behind a number, zero where there is none. -/
def readExponent (cs : List Char) : Option (Option Int × List Char) :=
  match cs with
  | e :: rest =>
    if e = 'e' || e = 'E' then
      let (negative, rest) := match rest with
        | '-' :: rest => (true, rest)
        | '+' :: rest => (false, rest)
        | rest => (false, rest)
      let digits := rest.takeWhile isDigit
      if digits.isEmpty then none
      else
        let n : Int := Nat.ofDigitChars 10 digits 0
        some (some (if negative then -n else n), rest.dropWhile isDigit)
    else some (none, cs)
  | [] => some (none, [])

def readFraction (cs : List Char) : Option (Option (List Char) × List Char) :=
  match cs with
  | '.' :: rest =>
    let digits := rest.takeWhile isDigit
    if digits.isEmpty then none else some (some digits, rest.dropWhile isDigit)
  | _ => some (none, cs)

/-- A number without its sign. A leading zero stands alone. -/
def readUnsigned (negative : Bool) (cs : List Char) : Option (Number × List Char) := do
  let digits := cs.takeWhile isDigit
  let rest := cs.dropWhile isDigit
  if digits.isEmpty || (digits.head? = some '0' && 1 < digits.length) then none
  else
    let (fraction, rest) ← readFraction rest
    let (power, rest) ← readExponent rest
    match fraction, power with
    | none, none =>
      match wholeOf? negative digits with
      | some i => pure (.whole i, rest)
      | none => do
        let x ← floatOf negative digits [] 0
        pure (x, rest)
    | fraction, power => do
      let x ← floatOf negative digits (fraction.getD []) (power.getD 0)
      pure (x, rest)

def readNumber : List Char → Option (Number × List Char)
  | '-' :: rest => readUnsigned true rest
  | cs => readUnsigned false cs

/-- Items behind the opening bracket of an array that is not empty. -/
def readItems (value : List Char → Option (Json × List Char)) :
    (room : Nat) → List Char → Option (List Json × List Char)
  | 0, _ => none
  | room + 1, cs => do
    let (x, rest) ← value cs
    match skipSpace rest with
    | ',' :: rest => do
      let (xs, rest) ← readItems value room rest
      pure (x :: xs, rest)
    | ']' :: rest => pure ([x], rest)
    | _ => none

/-- Members behind the opening brace of an object that is not empty, with names of at most this
length. -/
def readMembers (length : Nat) (value : List Char → Option (Json × List Char)) :
    (room : Nat) → List Char → Option (List (String × Json) × List Char)
  | 0, _ => none
  | room + 1, cs =>
    match skipSpace cs with
    | '"' :: rest => do
      let (name, rest) ← readText length rest
      match skipSpace rest with
      | ':' :: rest => do
        let (x, rest) ← value rest
        match skipSpace rest with
        | ',' :: rest => do
          let (members, rest) ← readMembers length value room rest
          pure ((name, x) :: members, rest)
        | '\x7d' :: rest => pure ([(name, x)], rest)
        | _ => none
      | _ => none
    | _ => none

/-- Reads a value inside of which at most `levels` arrays and objects are open at once, in a text of
at most this length. -/
def readValue (length : Nat) : (levels : Nat) → List Char → Option (Json × List Char)
  | levels, cs =>
    match skipSpace cs with
    | 'n' :: 'u' :: 'l' :: 'l' :: rest => some (null, rest)
    | 't' :: 'r' :: 'u' :: 'e' :: rest => some (bool true, rest)
    | 'f' :: 'a' :: 'l' :: 's' :: 'e' :: rest => some (bool false, rest)
    | '"' :: rest => do
      let (text, rest) ← readText length rest
      pure (string text, rest)
    | '[' :: rest =>
      match levels with
      | 0 => none
      | levels + 1 =>
        match skipSpace rest with
        | ']' :: rest => some (array [], rest)
        | _ => do
          let (xs, rest) ← readItems (readValue length levels) length rest
          pure (array xs, rest)
    | '\x7b' :: rest =>
      match levels with
      | 0 => none
      | levels + 1 =>
        match skipSpace rest with
        | '\x7d' :: rest => some (object [], rest)
        | _ => do
          let (members, rest) ← readMembers length (readValue length levels) length rest
          pure (object (collect members), rest)
    | cs => do
      let (n, rest) ← readNumber cs
      pure (number n, rest)

/-- The most arrays and objects that may be open at once. -/
def levelLimit : Nat := 127

/-- The document that a text writes, if it writes one. -/
def read (text : String) : Option Json :=
  let cs := text.toList
  match readValue cs.length levelLimit cs with
  | some (x, rest) => if (skipSpace rest).isEmpty then some x else none
  | none => none

end Policy.Json
