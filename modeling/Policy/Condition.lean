import Policy.Term

namespace Policy

/-- A statement about terms that holds or does not hold. -/
inductive Condition (α : Type) where
  | not (inner : Condition α)
  | and (lhs rhs : Condition α)
  | or (lhs rhs : Condition α)
  | equal (lhs rhs : Term α)
  | greater (lhs rhs : Term α)
  deriving DecidableEq

namespace Condition

variable {α β : Type} {m : Type → Type} [Monad m]

/-- The same condition with every reference passed through `f`, from left to right. -/
def mapRefs (f : α → m β) : Condition α → m (Condition β)
  | not inner => do
    let inner ← mapRefs f inner
    pure (not inner)
  | and lhs rhs => do
    let lhs ← mapRefs f lhs
    let rhs ← mapRefs f rhs
    pure (and lhs rhs)
  | or lhs rhs => do
    let lhs ← mapRefs f lhs
    let rhs ← mapRefs f rhs
    pure (or lhs rhs)
  | equal lhs rhs => do
    let lhs ← lhs.mapRefs f
    let rhs ← rhs.mapRefs f
    pure (equal lhs rhs)
  | greater lhs rhs => do
    let lhs ← lhs.mapRefs f
    let rhs ← rhs.mapRefs f
    pure (greater lhs rhs)

/-- The references of a condition in reading order. -/
def refs : Condition α → List α
  | not inner => inner.refs
  | and lhs rhs => lhs.refs ++ rhs.refs
  | or lhs rhs => lhs.refs ++ rhs.refs
  | equal lhs rhs => lhs.refs ++ rhs.refs
  | greater lhs rhs => lhs.refs ++ rhs.refs

end Condition

end Policy
