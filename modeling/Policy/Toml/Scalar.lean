import Policy.Toml.Text
import Policy.Toml.Value

namespace Policy.Toml

/-- Digits of a base, with single underscores between them. -/
def digits? (base : Nat) : List Char → Option (List Nat)
  | [] => none
  | [c] => do
    let d ← hexDigit? c
    if d < base then some [d] else none
  | c :: '_' :: cs => do
    let d ← hexDigit? c
    let ds ← digits? base cs
    if d < base then some (d :: ds) else none
  | c :: cs => do
    let d ← hexDigit? c
    let ds ← digits? base cs
    if d < base then some (d :: ds) else none

def numberOf (base : Nat) (ds : List Nat) : Nat := ds.foldl (fun n d => n * base + d) 0

/-- The integers of 64 bits. -/
def inRange (i : Int) : Bool := -9223372036854775808 ≤ i && i ≤ 9223372036854775807

/-- Digits without a zero in front, unless the zero stands alone. -/
def plain? (cs : List Char) : Option Nat := do
  let ds ← digits? 10 cs
  if ds.head? = some 0 && 1 < ds.length then none else some (numberOf 10 ds)

def dropSign : List Char → Bool × List Char
  | '-' :: cs => (true, cs)
  | '+' :: cs => (false, cs)
  | cs => (false, cs)

def integer? (cs : List Char) : Option Int := do
  let i ← match cs with
    | '0' :: 'x' :: cs => (digits? 16 cs).map fun ds => (numberOf 16 ds : Int)
    | '0' :: 'o' :: cs => (digits? 8 cs).map fun ds => (numberOf 8 ds : Int)
    | '0' :: 'b' :: cs => (digits? 2 cs).map fun ds => (numberOf 2 ds : Int)
    | cs =>
      let (negative, cs) := dropSign cs
      (plain? cs).map fun n => if negative then -(n : Int) else n
  if inRange i then some i else none

def isExponent (cs : List Char) : Bool := (digits? 10 (dropSign cs).2).isSome

/-- A number with a fraction, an exponent or both. -/
def isFraction (cs : List Char) : Bool :=
  let (_, cs) := dropSign cs
  if cs = ['i', 'n', 'f'] || cs = ['n', 'a', 'n'] then true
  else
    let mantissa := cs.takeWhile fun c => c ≠ 'e' && c ≠ 'E'
    let power := cs.drop mantissa.length
    let whole := mantissa.takeWhile (· ≠ '.')
    let part := mantissa.drop whole.length
    let wellFormed := (plain? whole).isSome &&
      (part.isEmpty || (digits? 10 (part.drop 1)).isSome) &&
      (power.isEmpty || isExponent (power.drop 1))
    wellFormed && !(part.isEmpty && power.isEmpty)

/-- Exactly so many digits, within bounds. -/
def field? (count low high : Nat) (cs : List Char) : Option (List Char) :=
  let front := cs.take count
  let n := Nat.ofDigitChars 10 front 0
  if front.length = count && front.all Char.isDigit && low ≤ n && n ≤ high then some (cs.drop count)
  else none

def sign? (c : Char) : List Char → Option (List Char)
  | d :: cs => if d = c then some cs else none
  | [] => none

def isLeap (year : Nat) : Bool := year % 4 = 0 && (year % 100 ≠ 0 || year % 400 = 0)

def daysIn (year month : Nat) : Nat :=
  if month = 2 then if isLeap year then 29 else 28
  else if month = 4 || month = 6 || month = 9 || month = 11 then 30
  else 31

/-- What stands behind a day. -/
def day? (cs : List Char) : Option (List Char) := do
  let rest ← field? 4 0 9999 cs >>= sign? '-'
  let year := Nat.ofDigitChars 10 (cs.take 4) 0
  let behind ← field? 2 1 12 rest >>= sign? '-'
  field? 2 1 (daysIn year (Nat.ofDigitChars 10 (rest.take 2) 0)) behind

/-- What stands behind a time of day. -/
def clock? (cs : List Char) : Option (List Char) := do
  let rest ← field? 2 0 23 cs >>= sign? ':' >>= field? 2 0 59 >>= sign? ':' >>= field? 2 0 60
  match rest with
  | '.' :: c :: rest => if c.isDigit then some (rest.dropWhile Char.isDigit) else none
  | '.' :: [] => none
  | rest => some rest

def isOffset (cs : List Char) : Bool :=
  match cs with
  | [] | ['Z'] | ['z'] => true
  | c :: rest =>
    (c = '+' || c = '-') &&
      (field? 2 0 23 rest >>= sign? ':' >>= field? 2 0 59) = some []

/-- A day, a time of day or both, of which only both together can have an offset. -/
def isDate (cs : List Char) : Bool :=
  match day? cs with
  | some [] => true
  | some (sep :: rest) =>
    (sep = 'T' || sep = 't' || sep = ' ') && ((clock? rest).map isOffset).getD false
  | none => clock? cs = some []

def isScalarChar (c : Char) : Bool :=
  c.isAlphanum || c = '_' || c = '+' || c = '-' || c = '.' || c = ':'

/-- The characters of a value without quotes. A blank belongs to it between a day and a time. -/
def scalarRun (cs : List Char) : List Char × List Char :=
  let front := cs.takeWhile isScalarChar
  let rest := cs.dropWhile isScalarChar
  match rest with
  | ' ' :: c :: rest =>
    if day? front = some [] && c.isDigit then
      (front ++ ' ' :: (c :: rest).takeWhile isScalarChar, (c :: rest).dropWhile isScalarChar)
    else (front, ' ' :: c :: rest)
  | rest => (front, rest)

def readScalar (cs : List Char) : Option (Toml × List Char) :=
  let (front, rest) := scalarRun cs
  match integer? front with
  | some i => some (integer i, rest)
  | none =>
    if front = ['t', 'r', 'u', 'e'] then some (boolean true, rest)
    else if front = ['f', 'a', 'l', 's', 'e'] then some (boolean false, rest)
    else if isFraction front then some (fraction, rest)
    else if isDate front then some (date, rest)
    else none

end Policy.Toml
