import Policy.RuleSet
import Policy.Service
import Policy.Traced

namespace Policy

/-- The parameters that a request brings along. -/
abbrev Request := List (String × String)

def Request.get? (request : Request) (key : String) : Option String :=
  (request.find? (·.1 = key)).map (·.2)

/-- What a rule set is evaluated with. -/
structure Evaluation (σ : Type) where
  set : RuleSet Slot
  request : Request
  service : Service σ
  depthLimit : Nat

namespace Evaluation

variable {σ : Type}

/-- How many attributes may be looked into within each other. -/
def defaultDepth : Nat := 256

abbrev Run (σ : Type) := StateM (Session σ)

def lookup (e : Evaluation σ) (key : String) : Traced Value :=
  match e.request.get? key with
  | some text => .leaf (.string text) ("request " ++ key)
  | none => .failed (.missingParameter key)

def call (e : Evaluation σ) (url : String) (method : Method) (params : List (String × Value)) :
    Run σ (Traced Value) := do
  match ← e.service.request ⟨url, method, params⟩ with
  | .ok body => pure (.leaf (.string body) "response")
  | .error fault => pure (.failed fault)

/-- Evaluates a term, where `deref` tells the values of attributes. Both operands of an operator
are evaluated before they are combined, the parameters of a call only up to the first fault. -/
def termWith (e : Evaluation σ) (deref : Slot → Run σ (Traced Value)) :
    Term Slot → Run σ (Traced Value)
  | .string text => pure (.leaf (.string text) "string")
  | .number n => pure (.leaf (.number n) "number")
  | .attr slot => deref slot
  | .coerce operand kind => do
    let x ← termWith e deref operand
    pure (x.tryMap (·.coerce kind) ("to " ++ kind.name))
  | .binary op lhs rhs => do
    let x ← termWith e deref lhs
    let y ← termWith e deref rhs
    pure (Traced.combine (Value.apply op) op.symbol x y)
  | .request key => pure (e.lookup key)
  | .rest url method params => do
    let values ← Traced.traverse deref "params" params
    values.flatMap (e.call url method) (method.name ++ " " ++ url)

/-- Evaluates an attribute inside of those on the chain, with room for so many more. -/
def attrAt (e : Evaluation σ) :
    (room : Nat) → (chain : List Slot) → Slot → Run σ (Traced Value)
  | room, chain, slot =>
    match e.set.attributes[slot]? with
    | none => pure (.failed (.unknownSlot slot))
    | some a =>
      if chain.contains slot then pure (.failed (.cycle a.name))
      else
        match room with
        | 0 => pure (.failed (.tooDeep a.name e.depthLimit))
        | room + 1 => do
          let x ← e.termWith (attrAt e room (slot :: chain)) a.value
          pure (x.map id ("attribute " ++ a.name))

def term (e : Evaluation σ) : Term Slot → Run σ (Traced Value) :=
  e.termWith (e.attrAt e.depthLimit [])

/-- Evaluates a condition. Both operands are evaluated, whatever the first one comes to. -/
def condition (e : Evaluation σ) : Condition Slot → Run σ (Traced Bool)
  | .not inner => do
    let x ← condition e inner
    pure (x.map (!·) "not")
  | .and lhs rhs => do
    let x ← condition e lhs
    let y ← condition e rhs
    pure (Traced.combine (fun a b => .ok (a && b)) "and" x y)
  | .or lhs rhs => do
    let x ← condition e lhs
    let y ← condition e rhs
    pure (Traced.combine (fun a b => .ok (a || b)) "or" x y)
  | .equal lhs rhs => do
    let x ← e.term lhs
    let y ← e.term rhs
    pure (Traced.combine (fun a b => .ok (a.equals b)) "==" x y)
  | .greater lhs rhs => do
    let x ← e.term lhs
    let y ← e.term rhs
    pure (Traced.combine Value.greater ">" x y)

mutual

/-- Evaluates a rule. All members of a group are evaluated, of a branch only the leg that the
condition selects. -/
def rule (e : Evaluation σ) : Rule Slot → Run σ (Traced Decision)
  | .always decision => pure (.leaf decision "always")
  | .never => pure (.leaf .undecided "never")
  | .when condition decision => do
    let x ← e.condition condition
    pure (x.map (fun holds => if holds then decision else Decision.undecided) "when")
  | .branch condition onTrue onFalse => do
    let x ← e.condition condition
    x.flatMap (fun holds => if holds then rule e onTrue else rule e onFalse) "branch"
  | .majority decision members => do
    let xs ← rules e members
    pure (Traced.aggregate (Decision.majority decision) "majority" xs)
  | .all decision members => do
    let xs ← rules e members
    pure (Traced.aggregate (Decision.unanimous decision) "all" xs)
  | .any decision members => do
    let xs ← rules e members
    pure (Traced.aggregate (Decision.anyOf decision) "any" xs)
  | .oneOf members => do
    let xs ← rules e members
    pure (Traced.aggregate Decision.exclusive "one-of" xs)

def rules (e : Evaluation σ) : List (Rule Slot) → Run σ (List (Traced Decision))
  | [] => pure []
  | rule :: rest => do
    let x ← Evaluation.rule e rule
    let xs ← rules e rest
    pure (x :: xs)

end

/-- Evaluates every rule of the set. A rule that fails leaves the others as they are. -/
def decisions (e : Evaluation σ) : Run σ (List (Traced Decision)) := e.rules e.set.rules

end Evaluation

end Policy
