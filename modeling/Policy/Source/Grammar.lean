import Policy.RuleSet
import Policy.Source.Grammar.Rule
import Policy.Source.Scan

namespace Policy.Source

/-- The deepest nesting of parentheses, negations, coercions, branches and groups, counted
together. -/
def nestingLimit : Option Nat := some 128

def readAttribute (limit : Option Nat) : Reader (Attribute String) := fun ts => do
  let (name, rest) ← readName ts
  let rest ← expectMark .eq "'='" rest
  let (value, rest) ← readTerm limit 0 rest
  pure (⟨name, value⟩, rest)

def startsAttribute : List Located → Bool
  | ⟨.name _, _⟩ :: ⟨.mark .eq, _⟩ :: _ => true
  | _ => false

def readAttributes (limit : Option Nat) : (room : Nat) → Reader (List (Attribute String))
  | 0, ts => .ok ([], ts)
  | room + 1, ts =>
    if startsAttribute ts then do
      let (a, rest) ← readAttribute limit ts
      let (as, rest) ← readAttributes limit room rest
      pure (a :: as, rest)
    else .ok ([], ts)

def readRules (limit : Option Nat) : (room : Nat) → Reader (List (Rule String))
  | 0, ts => .ok ([], ts)
  | room + 1, ts =>
    if peek ts = .eof then .ok ([], ts)
    else do
      let (rule, rest) ← readRule limit 0 ts
      let (rules, rest) ← readRules limit room rest
      pure (rule :: rules, rest)

/-- Attributes, then at least one rule, to the end of the tokens. -/
def readRuleSet (limit : Option Nat) : Reader (RuleSet String) := fun ts => do
  let (attributes, rest) ← readAttributes limit ts.length ts
  let (rules, rest) ← readRules limit rest.length rest
  if rules.isEmpty then expected "at least one rule" rest
  else pure (⟨attributes, rules⟩, rest)

/-- Reads a text from its first to its last token. -/
def readWhole {α : Type} (reader : Reader α) (text : String) : Except Refusal α := do
  let tokens ← scan text
  let (x, rest) ← reader tokens
  if peek rest = .eof then pure x
  else .error ⟨place rest, .unexpected "end of input" (peek rest)⟩

def attributeOf (text : String) : Except Refusal (Attribute String) :=
  readWhole (readAttribute nestingLimit) text

def termOf (text : String) : Except Refusal (Term String) :=
  readWhole (readTerm nestingLimit 0) text

def conditionOf (text : String) : Except Refusal (Condition String) :=
  readWhole (readCondition nestingLimit 0) text

def ruleOf (text : String) : Except Refusal (Rule String) :=
  readWhole (readRule nestingLimit 0) text

def ruleSetOf (text : String) : Except Refusal (RuleSet String) :=
  readWhole (readRuleSet nestingLimit) text

end Policy.Source
