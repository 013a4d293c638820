import Policy.Fault
import Policy.Pattern

namespace Policy

/-- What a term comes to. -/
inductive Value where
  | string (text : String)
  | number (n : Number)
  | truth (b : Bool)
  deriving DecidableEq

namespace Value

instance : Inhabited Value := ⟨truth false⟩

def typeName : Value → String
  | string _ => "String"
  | number _ => "Number"
  | truth _ => "Boolean"

def truthText (b : Bool) : String := if b then "true" else "false"

/-- The plain text of a value. -/
def render : Value → String
  | string text => text
  | number n => n.text
  | truth b => truthText b

/-- The text of a value that shows a string in quotes, which are not escaped. -/
def display : Value → String
  | string text => "\"" ++ text ++ "\""
  | number n => n.text
  | truth b => truthText b

/-- The number that a text stands for. -/
def numeric (text : String) : Except Fault Number :=
  match Number.read? text with
  | some n => .ok n
  | none => .error (.misfit (.notNumeric text))

/-- A value as a number. Strings are read, truth values have no number. -/
def toNumber : Value → Except Fault Number
  | number n => .ok n
  | string text => numeric text
  | truth _ => .error (.misfit .truthAsNumber)

/-- Whether two values are equal. A number equals the strings that stand for it. -/
def equals : Value → Value → Bool
  | string a, string b => a = b
  | number a, number b => a = b
  | truth a, truth b => a = b
  | number n, string text => Number.read? text = some n
  | string text, number n => Number.read? text = some n
  | _, _ => false

def exceeds (a b : Number) : Bool := b.val < a.val

/-- Whether the first value is the greater one. Two strings are compared as numbers where both stand
for one, and else by their characters. -/
def greater : Value → Value → Except Fault Bool
  | number a, number b => .ok (exceeds a b)
  | number a, string text => do
    let b ← numeric text
    pure (exceeds a b)
  | string text, number b => do
    let a ← numeric text
    pure (exceeds a b)
  | string a, string b =>
    match Number.read? a, Number.read? b with
    | some m, some n => .ok (exceeds m n)
    | _, _ => .ok (b < a)
  | a, b => .error (.misfit (.noOrder a.typeName b.typeName))

/-- The exact result of an operator on numbers. Division goes towards zero. -/
def exact : Operator → Int → Int → Int
  | .plus, a, b => a + b
  | .minus, a, b => a - b
  | .times, a, b => a * b
  | .divide, a, b => a.tdiv b
  | .regex, a, _ => a

def calculate (op : Operator) (a b : Number) : Except Fault Number :=
  if op = .divide && b.val = 0 then .error .divisionByZero
  else
    match Number.ofInt? (exact op a.val b.val) with
    | some n => .ok n
    | none => .error (.overflow a op b)

/-- Whether the text of a value matches the pattern that another value is the text of. -/
def matched (subject pattern : Value) : Except Fault Value :=
  match Pattern.test? pattern.render subject.render with
  | some b => .ok (truth b)
  | none => .error (.badPattern pattern.render)

/-- Applies an operator. Arithmetic takes both values as numbers, the left one first. -/
def apply (op : Operator) (lhs rhs : Value) : Except Fault Value :=
  match op with
  | .regex => matched lhs rhs
  | op => do
    let a ← lhs.toNumber
    let b ← rhs.toNumber
    let n ← calculate op a b
    pure (number n)

/-- Turns a value into one of the given kind. -/
def coerce (v : Value) (kind : Kind) : Except Fault Value :=
  match v, kind with
  | string text, .string => .ok (string text)
  | number n, .number => .ok (number n)
  | v, .string => .ok (string v.render)
  | v, .number => do
    let n ← v.toNumber
    pure (number n)

end Value

end Policy
