import Policy.Document.Reading
import Policy.Document.Writing
import Policy.Proofs.Json.Members
import Policy.Proofs.Outcome
import Policy.Proofs.WellFormed

namespace Policy

/-! ## Normal rule sets

A document has room for one value for each name of a parameter. -/

def Term.norm : Term String → Term String
  | .string text => .string text
  | .number n => .number n
  | .attr ref => .attr ref
  | .coerce operand kind => .coerce operand.norm kind
  | .binary op lhs rhs => .binary op lhs.norm rhs.norm
  | .request key => .request key
  | .rest url method params => .rest url method (Json.collect params)

def Condition.norm : Condition String → Condition String
  | .not inner => .not inner.norm
  | .and lhs rhs => .and lhs.norm rhs.norm
  | .or lhs rhs => .or lhs.norm rhs.norm
  | .equal lhs rhs => .equal lhs.norm rhs.norm
  | .greater lhs rhs => .greater lhs.norm rhs.norm

mutual

def Rule.norm : Rule String → Rule String
  | .always decision => .always decision
  | .never => .never
  | .when condition decision => .when condition.norm decision
  | .branch condition onTrue onFalse => .branch condition.norm onTrue.norm onFalse.norm
  | .majority decision members => .majority decision (Rule.normMembers members)
  | .all decision members => .all decision (Rule.normMembers members)
  | .any decision members => .any decision (Rule.normMembers members)
  | .oneOf members => .oneOf (Rule.normMembers members)

def Rule.normMembers : List (Rule String) → List (Rule String)
  | [] => []
  | rule :: rules => rule.norm :: Rule.normMembers rules

end

def Attribute.norm (a : Attribute String) : Attribute String := ⟨a.name, a.value.norm⟩

/-- The rule set with each parameter of a call once, at its first place and with its last value. -/
def RuleSet.norm (set : RuleSet String) : RuleSet String :=
  ⟨set.attributes.map (·.norm), Rule.normMembers set.rules⟩

theorem Term.norm_eq {t : Term String} (h : t.WellFormed) : t.norm = t := by
  induction t with
  | coerce operand kind ih => rw [norm, ih h]
  | binary op lhs rhs ihl ihr => rw [norm, ihl h.1, ihr h.2]
  | rest url method params => rw [norm, Json.collect_of_nodup h.1]
  | _ => rfl

theorem Condition.norm_eq {c : Condition String} (h : c.WellFormed) : c.norm = c := by
  induction c with
  | not inner ih => rw [norm, ih h]
  | and lhs rhs ihl ihr | or lhs rhs ihl ihr => rw [norm, ihl h.1, ihr h.2]
  | equal lhs rhs | greater lhs rhs => rw [norm, Term.norm_eq h.1, Term.norm_eq h.2]

mutual

theorem Rule.norm_eq (r : Rule String) (h : r.WellFormed) : r.norm = r := by
  cases r with
  | always decision => rfl
  | never => rfl
  | when condition decision => rw [norm, Condition.norm_eq h.1]
  | branch condition onTrue onFalse =>
    rw [norm, Condition.norm_eq h.1, norm_eq onTrue h.2.1, norm_eq onFalse h.2.2]
  | majority decision members | all decision members | any decision members =>
    rw [norm, normMembers_eq members h.2.2]
  | oneOf members => rw [norm, normMembers_eq members h.2]

theorem Rule.normMembers_eq (rs : List (Rule String)) (h : Rule.MembersWellFormed rs) :
    Rule.normMembers rs = rs := by
  cases rs with
  | nil => rfl
  | cons r rs => rw [normMembers, norm_eq r h.1, normMembers_eq rs h.2]

end

/-- No call in a well formed rule set has a parameter twice. -/
theorem RuleSet.norm_eq {set : RuleSet String} (h : set.WellFormed) : set.norm = set := by
  have hattributes : set.attributes.map (·.norm) = set.attributes := by
    have hid : ∀ a ∈ set.attributes, a.norm = id a := by
      intro a ha
      rw [Attribute.norm, Term.norm_eq (h.attributes a ha).2]
      rfl
    rw [List.map_congr_left hid, List.map_id]
  rw [norm, hattributes,
    Rule.normMembers_eq set.rules ((Rule.membersWellFormed_iff set.rules).mpr h.rules)]

namespace Document

/-! ## Members -/

section Members

variable {path : Path} {name text : String} {members : List (String × Json)}

theorem required_eq {x : Json} (h : Json.get? name members = some x) :
    required path name (.object members) = .ok ⟨x, sizeOf_get h⟩ := by
  simp only [required]
  split
  · next y hy =>
    cases h.symm.trans hy
    rfl
  · next hn =>
    rw [h] at hn
    cases hn

theorem requiredText_eq (h : Json.get? name members = some (.string text)) :
    requiredText path name (.object members) = .ok text := by
  rw [requiredText, required_eq h]
  rfl

theorem requiredName_eq {α : Type} {ofName? : String → Option α}
    {unknown : Path → String → Problem} {x : α}
    (h : Json.get? name members = some (.string text)) (hx : ofName? text = some x) :
    requiredName ofName? unknown path name (.object members) = .ok x := by
  rw [requiredName, requiredText_eq h, ok_bind, hx]

theorem requiredNumber_eq {n : Number}
    (h : Json.get? name members = some (.number (.whole n.val))) :
    requiredNumber path name (.object members) = .ok n := by
  have hn : Number.ofInt? n.val = some n := Number.ofInt_eq_some_iff.mpr rfl
  rw [requiredNumber, required_eq h, ok_bind]
  simp only [hn]

theorem requiredDecision_eq {d : Decision}
    (h : Json.get? "decision" members = some (.string d.name)) :
    requiredDecision path (.object members) = .ok d :=
  requiredName_eq h (Decision.ofName_name d)

theorem readParams_map (params : List (String × String)) :
    readParams path (params.map fun (name, ref) => (name, .string ref)) = .ok params := by
  induction params with
  | nil => rfl
  | cons p params ih =>
    obtain ⟨name, ref⟩ := p
    rw [List.map_cons, readParams, ih]
    rfl

theorem requiredParams_eq {params : List (String × String)}
    (h : Json.get? "params" members = some (writeParams params)) :
    requiredParams path (.object members) = .ok (Json.collect params) := by
  rw [writeParams, Json.collect_map] at h
  rw [requiredParams, required_eq h, ok_bind]
  exact readParams_map _

end Members

/-! ## Terms -/

theorem readTerm_operator (path : Path) (op : Operator) (lhs rhs : Json) :
    readTerm path (node op.name [("lhs", lhs), ("rhs", rhs)]) = (do
      let lhs ← readTerm (path.field "lhs") lhs
      let rhs ← readTerm (path.field "rhs") rhs
      pure (.binary op lhs rhs)) := by
  rw [node, readTerm, requiredText_eq rfl, ok_bind]
  cases op with
  | _ => rfl

theorem readTerm_coerce (path : Path) (operand : Json) (kind : Kind) :
    readTerm path (node "coerce" [("from", operand), ("to", .string kind.name)]) = (do
      let operand ← readTerm (path.field "from") operand
      pure (.coerce operand kind)) := by
  rw [node, readTerm, requiredText_eq rfl, ok_bind]
  cases kind with
  | _ => rfl

/-- The document of a term is read as the term with each parameter once, wherever it stands. -/
theorem readTerm_writeTerm (t : Term String) (path : Path) :
    readTerm path (writeTerm t) = .ok t.norm := by
  induction t generalizing path with
  | string text =>
    rw [writeTerm, node, readTerm, requiredText_eq rfl, ok_bind]
    rfl
  | number n =>
    rw [writeTerm, node, readTerm, requiredText_eq rfl, ok_bind]
    show (requiredNumber path "value" _ >>= _) = _
    rw [requiredNumber_eq rfl]
    rfl
  | attr ref =>
    rw [writeTerm, node, readTerm, requiredText_eq rfl, ok_bind]
    rfl
  | coerce operand kind ih =>
    rw [writeTerm, readTerm_coerce, ih]
    rfl
  | binary op lhs rhs ihl ihr =>
    rw [writeTerm, readTerm_operator, ihl, ok_bind, ihr]
    rfl
  | request key =>
    rw [writeTerm, node, readTerm, requiredText_eq rfl, ok_bind]
    rfl
  | rest url method params =>
    rw [writeTerm, node, readTerm, requiredText_eq rfl, ok_bind]
    show (requiredText path "url" _ >>= _) = _
    rw [requiredText_eq rfl, ok_bind, requiredName_eq rfl (Method.ofName_name method), ok_bind,
      requiredParams_eq rfl]
    rfl

/-! ## Conditions -/

theorem readTerms_node (path : Path) (kind : String) (lhs rhs : Term String) :
    readTerms path (node kind [("lhs", writeTerm lhs), ("rhs", writeTerm rhs)]) =
      .ok (lhs.norm, rhs.norm) := by
  rw [node, readTerms, required_eq rfl, ok_bind]
  show (readTerm _ (writeTerm lhs) >>= _) = _
  rw [readTerm_writeTerm, ok_bind, required_eq rfl, ok_bind]
  show (readTerm _ (writeTerm rhs) >>= _) = _
  rw [readTerm_writeTerm]
  rfl

theorem readCondition_writeCondition (c : Condition String) (path : Path) :
    readCondition path (writeCondition c) = .ok c.norm := by
  induction c generalizing path with
  | not inner ih =>
    rw [writeCondition, node, readCondition, requiredText_eq rfl, ok_bind]
    show (readCondition _ (writeCondition inner) >>= _) = _
    rw [ih]
    rfl
  | and lhs rhs ihl ihr | or lhs rhs ihl ihr =>
    rw [writeCondition, node, readCondition, requiredText_eq rfl, ok_bind]
    show (readCondition _ (writeCondition lhs) >>= _) = _
    rw [ihl, ok_bind]
    show (readCondition _ (writeCondition rhs) >>= _) = _
    rw [ihr]
    rfl
  | equal lhs rhs | greater lhs rhs =>
    rw [writeCondition, readCondition, node, requiredText_eq rfl, ok_bind]
    show (readTerms path (node _ _) >>= _) = _
    rw [readTerms_node]
    rfl

/-! ## Rules -/

mutual

theorem readRule_writeRule (r : Rule String) (path : Path) :
    readRule path (writeRule r) = .ok r.norm := by
  cases r with
  | always decision =>
    rw [writeRule, node, readRule, requiredText_eq rfl, ok_bind]
    show (requiredDecision path _ >>= _) = _
    rw [requiredDecision_eq rfl]
    rfl
  | never =>
    rw [writeRule, node, readRule, requiredText_eq rfl, ok_bind]
    rfl
  | when condition decision =>
    rw [writeRule, node, readRule, requiredText_eq rfl, ok_bind]
    show (readCondition _ (writeCondition condition) >>= _) = _
    rw [readCondition_writeCondition, ok_bind, requiredDecision_eq rfl]
    rfl
  | branch condition onTrue onFalse =>
    rw [writeRule, node, readRule, requiredText_eq rfl, ok_bind]
    show (readCondition _ (writeCondition condition) >>= _) = _
    rw [readCondition_writeCondition, ok_bind]
    show (readRule _ (writeRule onTrue) >>= _) = _
    rw [readRule_writeRule onTrue, ok_bind]
    show (readRule _ (writeRule onFalse) >>= _) = _
    rw [readRule_writeRule onFalse]
    rfl
  | majority decision members | all decision members | any decision members =>
    rw [writeRule, node, readRule, requiredText_eq rfl, ok_bind]
    show (requiredDecision path _ >>= _) = _
    rw [requiredDecision_eq rfl, ok_bind]
    show (readRules _ 0 (writeRules members) >>= _) = _
    rw [readRules_writeRules members]
    rfl
  | oneOf members =>
    rw [writeRule, node, readRule, requiredText_eq rfl, ok_bind]
    show (readRules _ 0 (writeRules members) >>= _) = _
    rw [readRules_writeRules members]
    rfl

theorem readRules_writeRules (rs : List (Rule String)) (path : Path) (index : Nat) :
    readRules path index (writeRules rs) = .ok (Rule.normMembers rs) := by
  cases rs with
  | nil =>
    rw [writeRules, readRules]
    rfl
  | cons r rs =>
    rw [writeRules, readRules, readRule_writeRule r, ok_bind, readRules_writeRules rs]
    rfl

end

/-! ## Rule sets -/

theorem readAttributes_writeAttributes (as : List (Attribute String)) (path : Path)
    (index : Nat) :
    readAttributes path index (as.map writeAttribute) = .ok (as.map (·.norm)) := by
  induction as generalizing index with
  | nil => rfl
  | cons a as ih =>
    have hvalue : readAttribute (path.item index) (writeAttribute a) = .ok a.norm := by
      rw [readAttribute, writeAttribute, requiredText_eq rfl, ok_bind, required_eq rfl, ok_bind]
      show (readTerm _ (writeTerm a.value) >>= _) = _
      rw [readTerm_writeTerm]
      rfl
    rw [List.map_cons, readAttributes, hvalue, ok_bind, ih]
    rfl

/-- The document of a rule set is read as the rule set with each parameter once. -/
theorem readRuleSet_writeRuleSet (set : RuleSet String) :
    readRuleSet (writeRuleSet set) = .ok set.norm := by
  rw [readRuleSet, writeRuleSet]
  show (readAttributes _ 0 (set.attributes.map writeAttribute) >>= _) = _
  rw [readAttributes_writeAttributes, ok_bind]
  show (readRules _ 0 (writeRules set.rules) >>= _) = _
  rw [readRules_writeRules]
  rfl

end Document

end Policy
