import Policy.Traced

namespace Policy.Traced

/-- A step of a program over a stack of traced values. -/
inductive Step where
  | push (value : Value) (label : String)
  | fail (message : String)
  | typeName (label : String)
  | coerce (kind : Kind) (label : String)
  | apply (op : Operator) (label : String)
  | equals (label : String)
  | greater (label : String)
  | follow (op : Operator) (value : Value) (inner label : String)
  | join (count : Nat) (label : String)
  | entries (entries : List (String × (Value ⊕ String))) (label : String)
  deriving DecidableEq

/-- How often the continuation of a step ran, for steps that have one. -/
inductive Visits where
  | none
  | continued (ran : Bool)
  | entered (count : Nat)
  deriving DecidableEq

def told (message : String) : Fault := .misfit (.other message)

/-- An entry is a value or the message of a fault. Entries are counted as they are taken up. -/
def entry : Value ⊕ String → StateM Nat (Traced Value)
  | .inl value => do
    modify (· + 1)
    pure (leaf value "entry")
  | .inr message => do
    modify (· + 1)
    pure (failed (told message))

def displayed (values : List Value) : Value :=
  .string (",".intercalate (values.map Value.display))

def counted (params : List (String × Value)) : Value :=
  match Number.ofInt? params.length with
  | some n => .number n
  | none => .number .zero

def continuation (op : Operator) (rhs : Value) (inner : String) (lhs : Value) :
    StateM Bool (Traced Value) := do
  set true
  pure (ofResult inner [] (lhs.apply op rhs))

/-- Runs a step. The stack has its top first. A step that needs more than the stack holds does not
run. -/
def Step.run : Step → List (Traced Value) → Option (List (Traced Value) × Visits)
  | push value label, stack => some (leaf value label :: stack, .none)
  | fail message, stack => some (failed (told message) :: stack, .none)
  | typeName label, x :: stack =>
    some (x.map (fun v => Value.string v.typeName) label :: stack, .none)
  | coerce kind label, x :: stack => some (x.tryMap (·.coerce kind) label :: stack, .none)
  | apply op label, y :: x :: stack => some (combine (Value.apply op) label x y :: stack, .none)
  | equals label, y :: x :: stack =>
    some (combine (fun a b => .ok (Value.truth (a.equals b))) label x y :: stack, .none)
  | greater label, y :: x :: stack =>
    some (combine (fun a b => (a.greater b).map Value.truth) label x y :: stack, .none)
  | follow op value inner label, x :: stack =>
    let (y, ran) := (x.flatMap (continuation op value inner) label).run false
    some (y :: stack, .continued ran)
  | join count label, stack =>
    if count ≤ stack.length then
      some (aggregate displayed label (stack.take count).reverse :: stack.drop count, .none)
    else none
  | Step.entries es label, stack =>
    let (x, count) := (traverse entry label es).run 0
    some (x.map counted "count" :: stack, .entered count)
  | _, _ => none

/-- Runs steps one after the other and gives what each left behind. -/
def runAll : List Step → List (Traced Value) → Option (List (List (Traced Value) × Visits))
  | [], _ => some []
  | step :: steps, stack => do
    let (stack, visits) ← step.run stack
    let states ← runAll steps stack
    pure ((stack, visits) :: states)

end Policy.Traced
