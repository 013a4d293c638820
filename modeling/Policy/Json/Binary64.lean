import Policy.Decimal

namespace Policy

/-- A finite floating-point number of 64 bits. -/
structure Binary64 where
  bits : UInt64
  deriving DecidableEq

namespace Binary64

/-- None for what is beyond the largest finite number. -/
def ofFloat? (x : Float) : Option Binary64 :=
  if x.isInf || x.isNaN then none else some ⟨x.toBits⟩

def isNegative (x : Binary64) : Bool := x.bits >>> 63 != 0

def twoTo (n : Nat) : Nat := Nat.pow 2 n

def tenTo (n : Nat) : Nat := Nat.pow 10 n

/-- The size of a number is `mantissa * 2 ^ exponent`. -/
def exponentField (x : Binary64) : Nat := ((x.bits >>> 52) &&& 0x7FF).toNat

def fractionField (x : Binary64) : Nat := (x.bits &&& 0xFFFFFFFFFFFFF).toNat

def mantissa (x : Binary64) : Nat :=
  if x.exponentField = 0 then x.fractionField else twoTo 52 + x.fractionField

def exponent (x : Binary64) : Int :=
  if x.exponentField = 0 then -1074 else (x.exponentField : Int) - 1075

/-- Whether the number has no fraction. -/
def isWhole (x : Binary64) : Bool :=
  0 ≤ x.exponent || x.mantissa % twoTo (-x.exponent).toNat = 0

/-- Compares `a * 10 ^ i` with `b * 2 ^ j`. -/
def compareScaled (a : Nat) (i : Int) (b : Nat) (j : Int) : Ordering :=
  compare (a * tenTo i.toNat * twoTo (-j).toNat) (b * twoTo j.toNat * tenTo (-i).toNat)

/-- Whether `digits * 10 ^ scale` lies among the numbers that are nearest to the size of `x`: not
beyond half way to a neighbour, and half way only where the mantissa is even. The neighbour below
a power of two is half as far away as the one above. -/
def readsBack (x : Binary64) (digits : Nat) (scale : Int) : Bool :=
  let narrow := x.fractionField = 0 && 1 < x.exponentField
  let low := if narrow then 4 * x.mantissa - 1 else 4 * x.mantissa - 2
  let high := 4 * x.mantissa + 2
  let even := x.mantissa % 2 = 0
  let below := compareScaled digits scale low (x.exponent - 2)
  let above := compareScaled digits scale high (x.exponent - 2)
  (below = .gt || (even && below = .eq)) && (above = .lt || (even && above = .eq))

/-- The number of digits in front of the decimal point, zero or less for a size below a tenth. -/
def magnitude (x : Binary64) : Int :=
  let guess := ((x.mantissa.log2 : Int) + x.exponent) * 30103 / 100000
  let candidates := [guess - 1, guess, guess + 1, guess + 2]
  (candidates.find? fun k => compareScaled 1 k x.mantissa x.exponent = .gt).getD (guess + 2)

/-- The whole number of steps of `10 ^ scale` below the size of `x`. -/
def stepsBelow (x : Binary64) (scale : Int) : Nat :=
  (x.mantissa * twoTo x.exponent.toNat * tenTo (-scale).toNat) /
    (twoTo (-x.exponent).toNat * tenTo scale.toNat)

/-- Of two neighbouring candidates the one that reads back, of two the nearer one, and half way
the even one. -/
def nearest? (x : Binary64) (scale : Int) : Option Nat :=
  let low := x.stepsBelow scale
  match x.readsBack low scale && low ≠ 0, x.readsBack (low + 1) scale with
  | true, true =>
    match compareScaled (2 * low + 1) scale (2 * x.mantissa) x.exponent with
    | .gt => some low
    | .lt => some (low + 1)
    | .eq => some (if low % 2 = 0 then low else low + 1)
  | true, false => some low
  | false, true => some (low + 1)
  | false, false => none

/-- The fewest decimal digits that read back as `x`, and the power of ten of the last one. -/
def shortest (x : Binary64) : Nat × Int :=
  let k := x.magnitude
  let scales := (List.range 17).map fun (n : Nat) => k - (n + 1 : Int)
  let found := scales.findSome? fun scale => (x.nearest? scale).map (·, scale)
  found.getD (x.stepsBelow (k - 17), k - 17)

def dropZeros : (room : Nat) → Nat → Int → Nat × Int
  | 0, digits, scale => (digits, scale)
  | room + 1, digits, scale =>
    if digits % 10 = 0 then dropZeros room (digits / 10) (scale + 1) else (digits, scale)

/-- The text of the digits: without an exponent from a hundred-thousandth up to 10^16, and always
with a fraction or an exponent. -/
def layout (digits : List Char) (scale : Int) : List Char :=
  let point := digits.length + scale
  if 0 ≤ scale && point ≤ 16 then digits ++ List.replicate scale.toNat '0' ++ ['.', '0']
  else if 0 < point && point ≤ 16 then
    digits.take point.toNat ++ '.' :: digits.drop point.toNat
  else if -5 < point && point ≤ 0 then
    '0' :: '.' :: List.replicate (-point).toNat '0' ++ digits
  else
    let power := point - 1
    let sign := if 0 ≤ power then '+' else '-'
    let fraction := if digits.length = 1 then [] else '.' :: digits.drop 1
    digits.take 1 ++ fraction ++ 'e' :: sign :: Nat.toDigits 10 power.natAbs

def write (x : Binary64) : List Char :=
  let sign := if x.isNegative then ['-'] else []
  if x.mantissa = 0 then sign ++ ['0', '.', '0']
  else
    let (digits, scale) := x.shortest
    let (digits, scale) := dropZeros 17 digits scale
    sign ++ layout (Nat.toDigits 10 digits) scale

end Binary64

end Policy
