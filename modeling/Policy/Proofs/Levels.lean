import Policy.RuleSet

namespace Policy

variable {α : Type}

/-! ## Levels of a policy

The coercions, branches and groups around a part, counted together. A negation is no level here: a
comparison can be one. -/

def Term.levels : Term α → Nat
  | .string _ | .number _ | .attr _ | .request _ | .rest _ _ _ => 0
  | .coerce operand _ => operand.levels + 1
  | .binary _ lhs rhs => max lhs.levels rhs.levels

def Condition.levels : Condition α → Nat
  | .not inner => inner.levels
  | .and lhs rhs | .or lhs rhs => max lhs.levels rhs.levels
  | .equal lhs rhs | .greater lhs rhs => max lhs.levels rhs.levels

mutual

def Rule.levels : Rule α → Nat
  | .always _ | .never => 0
  | .when condition _ => condition.levels
  | .branch condition onTrue onFalse =>
    max condition.levels (max onTrue.levels onFalse.levels) + 1
  | .majority _ members | .all _ members | .any _ members | .oneOf members =>
    Rule.memberLevels members + 1

def Rule.memberLevels : List (Rule α) → Nat
  | [] => 0
  | rule :: rules => max rule.levels (Rule.memberLevels rules)

end

/-- All parts of a rule set have at most so many levels. -/
structure RuleSet.LevelsWithin (most : Nat) (set : RuleSet α) : Prop where
  attributes : ∀ a ∈ set.attributes, a.value.levels ≤ most
  rules : ∀ r ∈ set.rules, r.levels ≤ most

end Policy
