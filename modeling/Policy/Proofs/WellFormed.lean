import Policy.RuleSet
import Policy.Source.Scan

namespace Policy

/-- A letter with letters, digits and underscores behind it. -/
def Source.isWord (text : String) : Bool :=
  match text.toList with
  | [] => false
  | c :: cs => c.isAlpha && cs.all Lead.isWordChar

/-- A word that is not reserved, so that it can name an attribute or a parameter. -/
def Source.isIdentifier (text : String) : Bool :=
  isWord text && (Keyword.ofText? text).isNone

theorem Source.letter_of_isAlpha {c : Char} (h : c.isAlpha) :
    ('A' ≤ c ∧ c ≤ 'Z') ∨ ('a' ≤ c ∧ c ≤ 'z') := by
  rcases Bool.or_eq_true_iff.mp h with hupper | hlower
  · exact .inl (of_decide_eq_true hupper)
  · obtain ⟨hlow, hhigh⟩ := Bool.and_eq_true_iff.mp hlower
    exact .inr ⟨of_decide_eq_true hlow, of_decide_eq_true hhigh⟩

open Source

/-- Parameters with identifiers for names and values, each name once. -/
def ParamsWellFormed (params : List (String × String)) : Prop :=
  (params.map Prod.fst).Nodup ∧ ∀ p ∈ params, isIdentifier p.1 ∧ isIdentifier p.2

/-- References and parameters as a policy text can spell them. -/
def Term.WellFormed : Term String → Prop
  | .string _ | .number _ | .request _ => True
  | .attr ref => isIdentifier ref
  | .coerce operand _ => operand.WellFormed
  | .binary _ lhs rhs => lhs.WellFormed ∧ rhs.WellFormed
  | .rest _ _ params => ParamsWellFormed params

instance Term.decidableWellFormed : (t : Term String) → Decidable t.WellFormed
  | .string _ | .number _ | .request _ => .isTrue trivial
  | .attr ref => inferInstanceAs (Decidable (isIdentifier ref = true))
  | .coerce operand _ => decidableWellFormed operand
  | .binary _ lhs rhs => @instDecidableAnd _ _ (decidableWellFormed lhs) (decidableWellFormed rhs)
  | .rest _ _ params => inferInstanceAs (Decidable (_ ∧ ∀ p ∈ params, _ ∧ _))

def Condition.WellFormed : Condition String → Prop
  | .not inner => inner.WellFormed
  | .and lhs rhs | .or lhs rhs => lhs.WellFormed ∧ rhs.WellFormed
  | .equal lhs rhs | .greater lhs rhs => lhs.WellFormed ∧ rhs.WellFormed

instance Condition.decidableWellFormed : (c : Condition String) → Decidable c.WellFormed
  | .not inner => decidableWellFormed inner
  | .and lhs rhs | .or lhs rhs =>
    @instDecidableAnd _ _ (decidableWellFormed lhs) (decidableWellFormed rhs)
  | .equal lhs rhs | .greater lhs rhs =>
    inferInstanceAs (Decidable (lhs.WellFormed ∧ rhs.WellFormed))

mutual

/-- Rules that come to a decision of their own and groups that have a member. -/
def Rule.WellFormed : Rule String → Prop
  | .always decision => decision ≠ .undecided
  | .never => True
  | .when condition decision => condition.WellFormed ∧ decision ≠ .undecided
  | .branch condition onTrue onFalse =>
    condition.WellFormed ∧ onTrue.WellFormed ∧ onFalse.WellFormed
  | .majority decision members | .all decision members | .any decision members =>
    decision ≠ .undecided ∧ members ≠ [] ∧ Rule.MembersWellFormed members
  | .oneOf members => members ≠ [] ∧ Rule.MembersWellFormed members

def Rule.MembersWellFormed : List (Rule String) → Prop
  | [] => True
  | rule :: rules => rule.WellFormed ∧ Rule.MembersWellFormed rules

end

mutual

instance Rule.decidableWellFormed : (r : Rule String) → Decidable r.WellFormed
  | .always decision => inferInstanceAs (Decidable (decision ≠ .undecided))
  | .never => .isTrue trivial
  | .when condition decision =>
    inferInstanceAs (Decidable (condition.WellFormed ∧ decision ≠ .undecided))
  | .branch _ onTrue onFalse =>
    have := decidableWellFormed onTrue
    have := decidableWellFormed onFalse
    instDecidableAnd
  | .majority _ members | .all _ members | .any _ members =>
    have := decidableMembersWellFormed members
    instDecidableAnd
  | .oneOf members =>
    have := decidableMembersWellFormed members
    instDecidableAnd

def Rule.decidableMembersWellFormed :
    (rules : List (Rule String)) → Decidable (Rule.MembersWellFormed rules)
  | [] => .isTrue trivial
  | rule :: rules =>
    @instDecidableAnd _ _ (decidableWellFormed rule) (decidableMembersWellFormed rules)

end

theorem Rule.membersWellFormed_iff (rules : List (Rule String)) :
    Rule.MembersWellFormed rules ↔ ∀ r ∈ rules, r.WellFormed := by
  induction rules with
  | nil => simp [Rule.MembersWellFormed]
  | cons r rs ih => simp [Rule.MembersWellFormed, ih]

def Attribute.WellFormed (a : Attribute String) : Prop :=
  isIdentifier a.name ∧ a.value.WellFormed

instance (a : Attribute String) : Decidable a.WellFormed :=
  inferInstanceAs (Decidable (isIdentifier a.name = true ∧ a.value.WellFormed))

/-- What a policy text can express: at least one rule, and all parts well formed. -/
structure RuleSet.WellFormed (set : RuleSet String) : Prop where
  attributes : ∀ a ∈ set.attributes, a.WellFormed
  rules : ∀ r ∈ set.rules, r.WellFormed
  nonempty : set.rules ≠ []

instance (set : RuleSet String) : Decidable set.WellFormed :=
  decidable_of_iff ((∀ a ∈ set.attributes, a.WellFormed) ∧ (∀ r ∈ set.rules, r.WellFormed) ∧
    set.rules ≠ []) ⟨fun ⟨ha, hr, hne⟩ => ⟨ha, hr, hne⟩, fun h => ⟨h.1, h.2, h.3⟩⟩

end Policy
