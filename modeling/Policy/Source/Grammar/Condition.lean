import Policy.Condition
import Policy.Source.Grammar.Term

namespace Policy.Source

/-- What a comparison sign between two terms means. All six are told by equality and order. -/
def comparison? : Token → Option (Term String → Term String → Condition String)
  | .mark .eq => some .equal
  | .mark .neq => some fun l r => .not (.equal l r)
  | .mark .gt => some .greater
  | .mark .lt => some fun l r => .greater r l
  | .mark .gte => some fun l r => .or (.equal l r) (.greater l r)
  | .mark .lte => some fun l r => .or (.equal l r) (.greater r l)
  | _ => none

def readComparison (term : Reader (Term String)) : Reader (Condition String) := fun ts => do
  let (left, rest) ← term ts
  match comparison? (peek rest) with
  | none => expected "comparison operator" rest
  | some compare => do
    let (right, rest) ← term rest.tail
    pure (compare left right, rest)

def conjunction? : Token → Option (Condition String → Condition String → Condition String)
  | .keyword .and => some .and
  | _ => none

def disjunction? : Token → Option (Condition String → Condition String → Condition String)
  | .keyword .or => some .or
  | _ => none

/-- Disjunctions of conjunctions. -/
def readChoice (unary : Reader (Condition String)) : Reader (Condition String) :=
  chain (chain unary conjunction?) disjunction?

/-- A condition in parentheses, if one stands behind the opening one. -/
def grouped? (group : Reader (Condition String)) (ts : List Located) :
    Option (Condition String × List Located) :=
  match group ts with
  | .ok (c, ⟨.mark .rparen, _⟩ :: rest) => some (c, rest)
  | _ => none

/-- A negation, a group or a comparison. An opening parenthesis starts a group or the left term of
a comparison: the group is tried first. -/
def readUnaryOver (negated group : Reader (Condition String)) (term : Reader (Term String)) :
    Reader (Condition String)
  | ⟨.keyword .not, _⟩ :: rest => do
    let (c, rest) ← negated rest
    pure (.not c, rest)
  | ⟨.mark .lparen, p⟩ :: rest =>
    match grouped? group rest with
    | some found => .ok found
    | none => readComparison term (⟨.mark .lparen, p⟩ :: rest)
  | ts => readComparison term ts

/-- Reads a negation, group or comparison inside of which at most `room` levels open. -/
def readUnaryAt (limit : Option Nat) : (room depth : Nat) → Reader (Condition String)
  | 0, _ => expected "term"
  | room + 1, depth =>
    readUnaryOver (nested limit depth (readUnaryAt limit room))
      (nested limit depth fun depth => readChoice (readUnaryAt limit room depth))
      (readTerm limit depth)

def readUnary (limit : Option Nat) (depth : Nat) : Reader (Condition String) := fun ts =>
  readUnaryAt limit (ts.length + 1) depth ts

def readCondition (limit : Option Nat) (depth : Nat) : Reader (Condition String) :=
  readChoice (readUnary limit depth)

end Policy.Source
