import Policy.Number

namespace Policy

/-- The type that a value is turned into. -/
inductive Kind where
  | string
  | number
  deriving DecidableEq

namespace Kind

def name : Kind → String
  | string => "STRING"
  | number => "NUMBER"

def ofName? : String → Option Kind
  | "STRING" => some string
  | "NUMBER" => some number
  | _ => none

theorem ofName_name (k : Kind) : ofName? k.name = some k := by
  cases k <;> rfl

end Kind

inductive Operator where
  | plus
  | minus
  | times
  | divide
  | regex
  deriving DecidableEq

namespace Operator

/-- The sign that explanations and messages show. -/
def symbol : Operator → String
  | plus => "+"
  | minus => "-"
  | times => "*"
  | divide => "/"
  | regex => "regex"

def name : Operator → String
  | plus => "PLUS"
  | minus => "MINUS"
  | times => "MULTIPLY"
  | divide => "DIVIDE"
  | regex => "REGEX"

def ofName? : String → Option Operator
  | "PLUS" => some plus
  | "MINUS" => some minus
  | "MULTIPLY" => some times
  | "DIVIDE" => some divide
  | "REGEX" => some regex
  | _ => none

theorem ofName_name (op : Operator) : ofName? op.name = some op := by
  cases op <;> rfl

end Operator

/-- How a remote service is called. -/
inductive Method where
  | get
  | post
  | put
  | delete
  deriving DecidableEq

namespace Method

def name : Method → String
  | get => "GET"
  | post => "POST"
  | put => "PUT"
  | delete => "DELETE"

def ofName? : String → Option Method
  | "GET" => some get
  | "POST" => some post
  | "PUT" => some put
  | "DELETE" => some delete
  | _ => none

theorem ofName_name (m : Method) : ofName? m.name = some m := by
  cases m <;> rfl

end Method

/-- An expression that stands for a value. Attributes are referred to by an `α`: by name as a
policy is written, by slot once it is linked. -/
inductive Term (α : Type) where
  | string (text : String)
  | number (n : Number)
  | attr (ref : α)
  | coerce (operand : Term α) (kind : Kind)
  | binary (op : Operator) (lhs rhs : Term α)
  | request (key : String)
  | rest (url : String) (method : Method) (params : List (String × α))
  deriving DecidableEq

namespace Term

variable {α β : Type} {m : Type → Type} [Monad m]

def mapParams (f : α → m β) : List (String × α) → m (List (String × β))
  | [] => pure []
  | (name, ref) :: params => do
    let ref ← f ref
    let params ← mapParams f params
    pure ((name, ref) :: params)

/-- The same term with every reference passed through `f`, from left to right. -/
def mapRefs (f : α → m β) : Term α → m (Term β)
  | string text => pure (string text)
  | number n => pure (number n)
  | attr ref => do
    let ref ← f ref
    pure (attr ref)
  | coerce operand kind => do
    let operand ← mapRefs f operand
    pure (coerce operand kind)
  | binary op lhs rhs => do
    let lhs ← mapRefs f lhs
    let rhs ← mapRefs f rhs
    pure (binary op lhs rhs)
  | request key => pure (request key)
  | rest url method params => do
    let params ← mapParams f params
    pure (rest url method params)

/-- The references of a term in reading order. -/
def refs : Term α → List α
  | string _ => []
  | number _ => []
  | attr ref => [ref]
  | coerce operand _ => operand.refs
  | binary _ lhs rhs => lhs.refs ++ rhs.refs
  | request _ => []
  | rest _ _ params => params.map Prod.snd

end Term

end Policy
