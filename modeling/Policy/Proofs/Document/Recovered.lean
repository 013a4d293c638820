import Policy.Proofs.Document.Written

namespace Policy

/-! ## Calls

The parameter lists of the calls that a policy makes, in reading order. -/

def Term.calls {α : Type} : Term α → List (List (String × α))
  | .string _ | .number _ | .attr _ | .request _ => []
  | .coerce operand _ => operand.calls
  | .binary _ lhs rhs => lhs.calls ++ rhs.calls
  | .rest _ _ params => [params]

def Condition.calls {α : Type} : Condition α → List (List (String × α))
  | .not inner => inner.calls
  | .and lhs rhs | .or lhs rhs => lhs.calls ++ rhs.calls
  | .equal lhs rhs | .greater lhs rhs => lhs.calls ++ rhs.calls

mutual

def Rule.calls {α : Type} : Rule α → List (List (String × α))
  | .always _ | .never => []
  | .when condition _ => condition.calls
  | .branch condition onTrue onFalse => condition.calls ++ onTrue.calls ++ onFalse.calls
  | .majority _ members | .all _ members | .any _ members | .oneOf members =>
    Rule.memberCalls members

def Rule.memberCalls {α : Type} : List (Rule α) → List (List (String × α))
  | [] => []
  | rule :: rules => rule.calls ++ Rule.memberCalls rules

end

def RuleSet.calls {α : Type} (set : RuleSet α) : List (List (String × α)) :=
  set.attributes.flatMap (·.value.calls) ++ Rule.memberCalls set.rules

/-- No call names a parameter twice. -/
def CallsDistinct {α : Type} (calls : List (List (String × α))) : Prop :=
  ∀ params ∈ calls, (params.map Prod.fst).Nodup

theorem callsDistinct_append {α : Type} (calls more : List (List (String × α))) :
    CallsDistinct (calls ++ more) ↔ CallsDistinct calls ∧ CallsDistinct more :=
  List.forall_mem_append

/-! ## What is normal

Nothing but a parameter that is named twice is changed. -/

theorem Term.norm_eq_iff (t : Term String) : t.norm = t ↔ CallsDistinct t.calls := by
  induction t with
  | string text | number n | attr ref | request key => simp [norm, calls, CallsDistinct]
  | coerce operand kind ih => simp [norm, calls, ih]
  | binary op lhs rhs ihl ihr => simp [norm, calls, callsDistinct_append, ihl, ihr]
  | rest url method params => simp [norm, calls, CallsDistinct, Json.collect_eq_self_iff]

theorem Condition.norm_eq_iff (c : Condition String) : c.norm = c ↔ CallsDistinct c.calls := by
  induction c with
  | not inner ih => simp [norm, calls, ih]
  | and lhs rhs ihl ihr | or lhs rhs ihl ihr =>
    simp [norm, calls, callsDistinct_append, ihl, ihr]
  | equal lhs rhs | greater lhs rhs =>
    simp [norm, calls, callsDistinct_append, Term.norm_eq_iff]

mutual

theorem Rule.norm_eq_iff (r : Rule String) : r.norm = r ↔ CallsDistinct r.calls := by
  cases r with
  | always decision | never => simp [norm, calls, CallsDistinct]
  | when condition decision => simp [norm, calls, Condition.norm_eq_iff]
  | branch condition onTrue onFalse =>
    simp [norm, calls, callsDistinct_append, Condition.norm_eq_iff, norm_eq_iff onTrue,
      norm_eq_iff onFalse]
  | majority decision members | all decision members | any decision members | oneOf members =>
    simp [norm, calls, normMembers_eq_iff members]

theorem Rule.normMembers_eq_iff (rs : List (Rule String)) :
    normMembers rs = rs ↔ CallsDistinct (memberCalls rs) := by
  cases rs with
  | nil => simp [normMembers, memberCalls, CallsDistinct]
  | cons r rs =>
    simp [normMembers, memberCalls, callsDistinct_append, norm_eq_iff r, normMembers_eq_iff rs]

end

theorem Attribute.normList_eq_iff (as : List (Attribute String)) :
    as.map (·.norm) = as ↔ CallsDistinct (as.flatMap (·.value.calls)) := by
  induction as with
  | nil => simp [CallsDistinct]
  | cons a as ih =>
    have ha : a.norm = a ↔ CallsDistinct a.value.calls := by
      rw [← Term.norm_eq_iff]
      obtain ⟨name, value⟩ := a
      simp [Attribute.norm]
    simp [callsDistinct_append, ha, ih]

theorem RuleSet.norm_eq_iff (set : RuleSet String) : set.norm = set ↔ CallsDistinct set.calls := by
  rw [calls, callsDistinct_append, ← Attribute.normList_eq_iff, ← Rule.normMembers_eq_iff]
  obtain ⟨attributes, rules⟩ := set
  simp [norm]

namespace Document

/-- The document of a rule set, whatever its texts, numbers and nesting, is read as the rule set
again. Only of a parameter that a call names twice is the last value kept, at the first place, and
so the rule set itself comes back exactly if no call does that. -/
theorem readRuleSet_recovers (set : RuleSet String) :
    readRuleSet (writeRuleSet set) = .ok set.norm ∧
      (∀ url method params, ∃ kept,
        (Term.rest url method params).norm = .rest url method kept ∧
          Json.Collected params kept) ∧
      (readRuleSet (writeRuleSet set) = .ok set ↔
        ∀ params ∈ set.calls, (params.map Prod.fst).Nodup) := by
  refine ⟨readRuleSet_writeRuleSet set, ?_, ?_⟩
  · intro url method params
    exact ⟨Json.collect params, rfl, Json.collected_collect params⟩
  · rw [readRuleSet_writeRuleSet, Except.ok.injEq]
    exact RuleSet.norm_eq_iff set

example : (Term.rest "http://roles" .get [("user", "a"), ("team", "b"), ("user", "c")]).norm =
    .rest "http://roles" .get [("user", "c"), ("team", "b")] := by decide

end Document

end Policy
