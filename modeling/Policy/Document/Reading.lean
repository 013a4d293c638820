import Policy.Document.Problem
import Policy.Json.Read
import Policy.RuleSet

namespace Policy.Document

theorem sizeOf_get {name : String} {x : Json} {members : List (String × Json)}
    (h : Json.get? name members = some x) : sizeOf x < sizeOf (Json.object members) := by
  induction members with
  | nil => simp [Json.get?] at h
  | cons m ms ih =>
    obtain ⟨k, y⟩ := m
    simp only [Json.get?] at h
    split at h
    · simp only [Option.some.injEq] at h
      subst h
      simp
      omega
    · have := ih h
      simp at this ⊢
      omega

/-- The member of an object, which is smaller than the object itself. -/
def required (path : Path) (name : String) (doc : Json) :
    Except Problem { x : Json // sizeOf x < sizeOf doc } :=
  match doc with
  | .object members =>
    match h : Json.get? name members with
    | some x => .ok ⟨x, sizeOf_get h⟩
    | none => .error (.missing path name)
  | _ => .error (.shape path .object)

def requiredText (path : Path) (name : String) (doc : Json) : Except Problem String := do
  match ← required path name doc with
  | ⟨.string text, _⟩ => .ok text
  | _ => .error (.shape (path.field name) .string)

def requiredNumber (path : Path) (name : String) (doc : Json) : Except Problem Number := do
  match ← required path name doc with
  | ⟨.number (.whole i), _⟩ =>
    match Number.ofInt? i with
    | some n => .ok n
    | none => .error (.shape (path.field name) .integer)
  | _ => .error (.shape (path.field name) .integer)

def requiredItems (path : Path) (name : String) (doc : Json) :
    Except Problem { xs : List Json // sizeOf xs < sizeOf doc } := do
  match ← required path name doc with
  | ⟨.array xs, h⟩ => .ok ⟨xs, by simp at h; omega⟩
  | _ => .error (.shape (path.field name) .array)

/-- A text that names something, such as a method or a decision. -/
def requiredName {α : Type} (ofName? : String → Option α) (unknown : Path → String → Problem)
    (path : Path) (name : String) (doc : Json) : Except Problem α := do
  let text ← requiredText path name doc
  match ofName? text with
  | some x => .ok x
  | none => .error (unknown (path.field name) text)

def requiredDecision (path : Path) (doc : Json) : Except Problem Decision :=
  requiredName Decision.ofName? .unknownDecision path "decision" doc

def readParams (path : Path) : List (String × Json) → Except Problem (List (String × String))
  | [] => .ok []
  | (name, .string ref) :: members => do
    let params ← readParams path members
    pure ((name, ref) :: params)
  | (name, _) :: _ => .error (.shape (path.field name) .attributeName)

def requiredParams (path : Path) (doc : Json) : Except Problem (List (String × String)) := do
  match ← required path "params" doc with
  | ⟨.object members, _⟩ => readParams (path.field "params") members
  | _ => .error (.shape (path.field "params") .object)

/-- The term that a document describes. -/
def readTerm (path : Path) (doc : Json) : Except Problem (Term String) := do
  match ← requiredText path "type" doc with
  | "string" =>
    let text ← requiredText path "value" doc
    pure (.string text)
  | "number" =>
    let n ← requiredNumber path "value" doc
    pure (.number n)
  | "attribute" =>
    let ref ← requiredText path "name" doc
    pure (.attr ref)
  | "request" =>
    let key ← requiredText path "key" doc
    pure (.request key)
  | "rest" =>
    let url ← requiredText path "url" doc
    let method ← requiredName Method.ofName? .unknownMethod path "method" doc
    let params ← requiredParams path doc
    pure (.rest url method params)
  | "coerce" =>
    let ⟨operand, _⟩ ← required path "from" doc
    let operand ← readTerm (path.field "from") operand
    let target ← requiredName Kind.ofName? .unknownKind path "to" doc
    pure (.coerce operand target)
  | kind =>
    match Operator.ofName? kind with
    | some op =>
      let ⟨lhs, _⟩ ← required path "lhs" doc
      let lhs ← readTerm (path.field "lhs") lhs
      let ⟨rhs, _⟩ ← required path "rhs" doc
      let rhs ← readTerm (path.field "rhs") rhs
      pure (.binary op lhs rhs)
    | none => .error (.unknownNode path kind)
termination_by sizeOf doc

/-- Two terms, the left one first. -/
def readTerms (path : Path) (doc : Json) : Except Problem (Term String × Term String) := do
  let ⟨lhs, _⟩ ← required path "lhs" doc
  let lhs ← readTerm (path.field "lhs") lhs
  let ⟨rhs, _⟩ ← required path "rhs" doc
  let rhs ← readTerm (path.field "rhs") rhs
  pure (lhs, rhs)

/-- The condition that a document describes. -/
def readCondition (path : Path) (doc : Json) : Except Problem (Condition String) := do
  match ← requiredText path "type" doc with
  | "not" =>
    let ⟨inner, _⟩ ← required path "condition" doc
    let inner ← readCondition (path.field "condition") inner
    pure (.not inner)
  | "and" =>
    let ⟨lhs, _⟩ ← required path "lhs" doc
    let lhs ← readCondition (path.field "lhs") lhs
    let ⟨rhs, _⟩ ← required path "rhs" doc
    let rhs ← readCondition (path.field "rhs") rhs
    pure (.and lhs rhs)
  | "or" =>
    let ⟨lhs, _⟩ ← required path "lhs" doc
    let lhs ← readCondition (path.field "lhs") lhs
    let ⟨rhs, _⟩ ← required path "rhs" doc
    let rhs ← readCondition (path.field "rhs") rhs
    pure (.or lhs rhs)
  | "equal" =>
    let (lhs, rhs) ← readTerms path doc
    pure (.equal lhs rhs)
  | "greater" =>
    let (lhs, rhs) ← readTerms path doc
    pure (.greater lhs rhs)
  | kind => .error (.unknownNode path kind)
termination_by sizeOf doc

mutual

/-- The rule that a document describes. The decision of a rule that never applies is checked, but
has no part in it. -/
def readRule (path : Path) (doc : Json) : Except Problem (Rule String) := do
  match ← requiredText path "type" doc with
  | "always" =>
    let decision ← requiredDecision path doc
    pure (.always decision)
  | "never" =>
    let _ ← requiredDecision path doc
    pure .never
  | "when" =>
    let ⟨condition, _⟩ ← required path "condition" doc
    let condition ← readCondition (path.field "condition") condition
    let decision ← requiredDecision path doc
    pure (.when condition decision)
  | "branch" =>
    let ⟨condition, _⟩ ← required path "condition" doc
    let condition ← readCondition (path.field "condition") condition
    let ⟨onTrue, _⟩ ← required path "true" doc
    let onTrue ← readRule (path.field "true") onTrue
    let ⟨onFalse, _⟩ ← required path "false" doc
    let onFalse ← readRule (path.field "false") onFalse
    pure (.branch condition onTrue onFalse)
  | "majority" =>
    let decision ← requiredDecision path doc
    let ⟨rules, _⟩ ← requiredItems path "rules" doc
    let rules ← readRules (path.field "rules") 0 rules
    pure (.majority decision rules)
  | "all" =>
    let decision ← requiredDecision path doc
    let ⟨rules, _⟩ ← requiredItems path "rules" doc
    let rules ← readRules (path.field "rules") 0 rules
    pure (.all decision rules)
  | "any" =>
    let decision ← requiredDecision path doc
    let ⟨rules, _⟩ ← requiredItems path "rules" doc
    let rules ← readRules (path.field "rules") 0 rules
    pure (.any decision rules)
  | "one-of" =>
    let ⟨rules, _⟩ ← requiredItems path "rules" doc
    let rules ← readRules (path.field "rules") 0 rules
    pure (.oneOf rules)
  | kind => .error (.unknownNode path kind)
termination_by sizeOf doc

/-- The rules that the items of an array describe, from item `index` on. -/
def readRules (path : Path) (index : Nat) (docs : List Json) :
    Except Problem (List (Rule String)) :=
  match docs with
  | [] => .ok []
  | doc :: docs => do
    let rule ← readRule (path.item index) doc
    let rules ← readRules path (index + 1) docs
    pure (rule :: rules)
termination_by sizeOf docs

end

def readAttribute (path : Path) (doc : Json) : Except Problem (Attribute String) := do
  let name ← requiredText path "name" doc
  let ⟨value, _⟩ ← required path "value" doc
  let value ← readTerm (path.field "value") value
  pure ⟨name, value⟩

def readAttributes (path : Path) :
    (index : Nat) → List Json → Except Problem (List (Attribute String))
  | _, [] => .ok []
  | index, doc :: docs => do
    let a ← readAttribute (path.item index) doc
    let as ← readAttributes path (index + 1) docs
    pure (a :: as)

/-- The rule set that a document describes, attributes first. -/
def readRuleSet (doc : Json) : Except Problem (RuleSet String) := do
  let ⟨attributes, _⟩ ← requiredItems .start "attributes" doc
  let attributes ← readAttributes (Path.start.field "attributes") 0 attributes
  let ⟨rules, _⟩ ← requiredItems .start "rules" doc
  let rules ← readRules (Path.start.field "rules") 0 rules
  pure ⟨attributes, rules⟩

/-- The rule set that the text of a document describes. -/
def read (text : String) : Except Problem (RuleSet String) :=
  match Json.read text with
  | some doc => readRuleSet doc
  | none => .error .notJson

end Policy.Document
