import Policy.Condition
import Policy.Decision

namespace Policy

/-- A part of a policy that comes to a decision. The members of a group are rules themselves. -/
inductive Rule (α : Type) where
  | always (decision : Decision)
  | never
  | when (condition : Condition α) (decision : Decision)
  | branch (condition : Condition α) (onTrue onFalse : Rule α)
  | majority (decision : Decision) (members : List (Rule α))
  | all (decision : Decision) (members : List (Rule α))
  | any (decision : Decision) (members : List (Rule α))
  | oneOf (members : List (Rule α))

namespace Rule

variable {α β : Type} {m : Type → Type} [Monad m]

mutual

def same [DecidableEq α] : Rule α → Rule α → Bool
  | always d, always e => d = e
  | never, never => true
  | when c d, when c' e => c = c' && d = e
  | branch c r s, branch c' r' s' => c = c' && same r r' && same s s'
  | majority d rs, majority e ss => d = e && sameMembers rs ss
  | all d rs, all e ss => d = e && sameMembers rs ss
  | any d rs, any e ss => d = e && sameMembers rs ss
  | oneOf rs, oneOf ss => sameMembers rs ss
  | _, _ => false

def sameMembers [DecidableEq α] : List (Rule α) → List (Rule α) → Bool
  | [], [] => true
  | r :: rs, s :: ss => same r s && sameMembers rs ss
  | _, _ => false

end

mutual

theorem same_iff [DecidableEq α] (a b : Rule α) : same a b = true ↔ a = b := by
  cases a <;> cases b <;> simp [same, same_iff, sameMembers_iff, and_assoc]

theorem sameMembers_iff [DecidableEq α] (a b : List (Rule α)) :
    sameMembers a b = true ↔ a = b := by
  cases a <;> cases b <;> simp [sameMembers, same_iff, sameMembers_iff]

end

instance [DecidableEq α] : DecidableEq (Rule α) :=
  fun a b => decidable_of_iff _ (same_iff a b)

mutual

/-- The same rule with every reference passed through `f`, from left to right. -/
def mapRefs (f : α → m β) : Rule α → m (Rule β)
  | always decision => pure (always decision)
  | never => pure never
  | when condition decision => do
    let condition ← condition.mapRefs f
    pure (when condition decision)
  | branch condition onTrue onFalse => do
    let condition ← condition.mapRefs f
    let onTrue ← mapRefs f onTrue
    let onFalse ← mapRefs f onFalse
    pure (branch condition onTrue onFalse)
  | majority decision members => do
    let members ← mapMembers f members
    pure (majority decision members)
  | all decision members => do
    let members ← mapMembers f members
    pure (all decision members)
  | any decision members => do
    let members ← mapMembers f members
    pure (any decision members)
  | oneOf members => do
    let members ← mapMembers f members
    pure (oneOf members)

def mapMembers (f : α → m β) : List (Rule α) → m (List (Rule β))
  | [] => pure []
  | rule :: rules => do
    let rule ← mapRefs f rule
    let rules ← mapMembers f rules
    pure (rule :: rules)

end

mutual

/-- The references of a rule in reading order. -/
def refs : Rule α → List α
  | always _ => []
  | never => []
  | when condition _ => condition.refs
  | branch condition onTrue onFalse => condition.refs ++ onTrue.refs ++ onFalse.refs
  | majority _ members => memberRefs members
  | all _ members => memberRefs members
  | any _ members => memberRefs members
  | oneOf members => memberRefs members

def memberRefs : List (Rule α) → List α
  | [] => []
  | rule :: rules => rule.refs ++ memberRefs rules

end

end Rule

end Policy
