import Policy.Rule
import Policy.Source.Grammar.Condition

namespace Policy.Source

def readDecision : Reader Decision
  | ⟨.keyword .permit, _⟩ :: rest => .ok (.permit, rest)
  | ⟨.keyword .deny, _⟩ :: rest => .ok (.deny, rest)
  | ts => expected "'permit' or 'deny'" ts

/-- Reads the rules behind each comma that follows. -/
def readMembersFrom (rule : Reader (Rule String)) : (room : Nat) → Reader (List (Rule String))
  | 0, ts => .ok ([], ts)
  | room + 1, ts =>
    match ts with
    | ⟨.mark .comma, _⟩ :: rest => do
      let (member, rest) ← rule rest
      let (members, rest) ← readMembersFrom rule room rest
      pure (member :: members, rest)
    | ts => .ok ([], ts)

def readMembers (rule : Reader (Rule String)) : Reader (List (Rule String)) := fun ts => do
  let (member, rest) ← rule ts
  let (members, rest) ← readMembersFrom rule rest.length rest
  pure (member :: members, rest)

/-- One or more rules in braces. -/
def readBlock (limit : Option Nat) (depth : Nat) (rule : Nat → Reader (Rule String)) :
    Reader (List (Rule String)) := fun ts => do
  let rest ← expectMark .lbrace "'\x7b'" ts
  let (members, rest) ← nested limit depth (fun depth => readMembers (rule depth)) rest
  let rest ← expectMark .rbrace "',' or '\x7d'" rest
  pure (members, rest)

/-- The condition and the legs of a branch. Without a second leg the branch does not decide. -/
def readBranch (limit : Option Nat) (rule : Nat → Reader (Rule String)) (depth : Nat) :
    Reader (Rule String) := fun ts => do
  let (condition, rest) ← readCondition limit depth ts
  let (onTrue, rest) ← rule depth rest
  match rest with
  | ⟨.keyword .otherwise, _⟩ :: rest => do
    let (onFalse, rest) ← rule depth rest
    pure (.branch condition onTrue onFalse, rest)
  | rest => pure (.branch condition onTrue .never, rest)

def readWhen (limit : Option Nat) (depth : Nat) : Reader (Rule String) := fun ts => do
  let (decision, rest) ← readDecision ts
  let rest ← expectKeyword .when rest
  let (condition, rest) ← readCondition limit depth rest
  pure (.when condition decision, rest)

def readGroup (limit : Option Nat) (depth : Nat) (rule : Nat → Reader (Rule String))
    (group : Decision → List (Rule String) → Rule String) : Reader (Rule String) := fun ts => do
  let (decision, rest) ← readDecision ts
  let (members, rest) ← readBlock limit depth rule rest
  pure (group decision members, rest)

/-- A rule whose inner rules are read by `rule`, given their depth. -/
def readRuleOver (limit : Option Nat) (rule : Nat → Reader (Rule String)) (depth : Nat) :
    Reader (Rule String)
  | ⟨.keyword .always, _⟩ :: rest => do
    let (decision, rest) ← readDecision rest
    pure (.always decision, rest)
  | ⟨.keyword .never, _⟩ :: rest => .ok (.never, rest)
  | ⟨.keyword .permit, p⟩ :: rest => readWhen limit depth (⟨.keyword .permit, p⟩ :: rest)
  | ⟨.keyword .deny, p⟩ :: rest => readWhen limit depth (⟨.keyword .deny, p⟩ :: rest)
  | ⟨.keyword .cond, _⟩ :: rest => nested limit depth (readBranch limit rule) rest
  | ⟨.keyword .majority, _⟩ :: rest => readGroup limit depth rule .majority rest
  | ⟨.keyword .all, _⟩ :: rest => readGroup limit depth rule .all rest
  | ⟨.keyword .any, _⟩ :: rest => readGroup limit depth rule .any rest
  | ⟨.keyword .exclusive, _⟩ :: rest => do
    let (members, rest) ← readBlock limit depth rule rest
    pure (.oneOf members, rest)
  | ts => expected "rule" ts

/-- Reads a rule inside of which at most `room` levels open. -/
def readRuleAt (limit : Option Nat) : (room depth : Nat) → Reader (Rule String)
  | 0, _ => expected "rule"
  | room + 1, depth => readRuleOver limit (readRuleAt limit room) depth

def readRule (limit : Option Nat) (depth : Nat) : Reader (Rule String) := fun ts =>
  readRuleAt limit (ts.length + 1) depth ts

end Policy.Source
