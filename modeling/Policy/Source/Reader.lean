import Policy.Source.Refusal

namespace Policy.Source

/-- Reads an `α` from the front of a token list and gives the tokens behind it. -/
abbrev Reader (α : Type) := List Located → Except Refusal (α × List Located)

variable {α : Type}

def peek : List Located → Token
  | [] => .eof
  | t :: _ => t.token

def place : List Located → Position
  | [] => .start
  | t :: _ => t.pos

def refuse (cause : Cause) : Reader α := fun ts => .error ⟨place ts, cause⟩

/-- Refuses the next token, where `wanted` should have stood. -/
def expected (wanted : String) : Reader α := fun ts => refuse (.unexpected wanted (peek ts)) ts

def expectMark (m : Mark) (wanted : String) (ts : List Located) :
    Except Refusal (List Located) :=
  match ts with
  | ⟨.mark m', p⟩ :: rest =>
    if m' = m then .ok rest else .error ⟨p, .unexpected wanted (.mark m')⟩
  | ts => .error ⟨place ts, .unexpected wanted (peek ts)⟩

def expectKeyword (k : Keyword) (ts : List Located) : Except Refusal (List Located) :=
  let wanted := "'" ++ k.text ++ "'"
  match ts with
  | ⟨.keyword k', p⟩ :: rest =>
    if k' = k then .ok rest else .error ⟨p, .unexpected wanted (.keyword k')⟩
  | ts => .error ⟨place ts, .unexpected wanted (peek ts)⟩

def readName : Reader String
  | ⟨.name text, _⟩ :: rest => .ok (text, rest)
  | ⟨.keyword k, p⟩ :: _ => .error ⟨p, .reservedWord k⟩
  | ts => expected "identifier" ts

def readString : Reader String
  | ⟨.str text, _⟩ :: rest => .ok (text, rest)
  | ts => expected "string literal" ts

/-- Reads one level deeper than `depth`, up to the limit. Without a limit nesting has no bound. -/
def nested (limit : Option Nat) (depth : Nat) (inner : Nat → Reader α) : Reader α := fun ts =>
  match limit with
  | some most => if most ≤ depth then refuse (.tooDeep most) ts else inner (depth + 1) ts
  | none => inner (depth + 1) ts

/-- Goes on behind a first operand, as long as operators follow. -/
def chainFrom (operand : Reader α) (op : Token → Option (α → α → α)) :
    (room : Nat) → α → Reader α
  | 0, left, ts => .ok (left, ts)
  | room + 1, left, ts =>
    match op (peek ts) with
    | none => .ok (left, ts)
    | some join => do
      let (right, rest) ← operand ts.tail
      chainFrom operand op room (join left right) rest

/-- Operands with operators between them, joined from the left. -/
def chain (operand : Reader α) (op : Token → Option (α → α → α)) : Reader α := fun ts => do
  let (first, rest) ← operand ts
  chainFrom operand op rest.length first rest

end Policy.Source
