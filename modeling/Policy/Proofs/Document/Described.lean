import Policy.Proofs.Document.Nodes

namespace Policy

/-! ## Names that are known -/

theorem Kind.name_of_ofName {text : String} {kind : Kind} (h : ofName? text = some kind) :
    text = kind.name := by
  unfold ofName? at h
  split at h
  · cases h; rfl
  · cases h; rfl
  · cases h

theorem Operator.name_of_ofName {text : String} {op : Operator} (h : ofName? text = some op) :
    text = op.name := by
  unfold ofName? at h
  split at h
  · cases h; rfl
  · cases h; rfl
  · cases h; rfl
  · cases h; rfl
  · cases h; rfl
  · cases h

theorem Method.name_of_ofName {text : String} {method : Method}
    (h : ofName? text = some method) : text = method.name := by
  unfold ofName? at h
  split at h
  · cases h; rfl
  · cases h; rfl
  · cases h; rfl
  · cases h; rfl
  · cases h

theorem Decision.name_of_ofName {text : String} {decision : Decision}
    (h : ofName? text = some decision) : text = decision.name := by
  unfold ofName? at h
  split at h
  · cases h; rfl
  · cases h; rfl
  · cases h; rfl
  · cases h

namespace Document

/-! ## Documents of terms, conditions and rules

What a document has to hold for a term to be read from it. It may hold more. -/

/-- There are members of these names, each one with what is asked of it. -/
def HasAll : List (String × (Json → Prop)) → List (String × Json) → Prop
  | [], _ => True
  | (name, P) :: fields, members =>
    (∃ x, Json.get? name members = some x ∧ P x) ∧ HasAll fields members

theorem HasAll.get {fields : List (String × (Json → Prop))} {members : List (String × Json)}
    (h : HasAll fields members) {name : String} {P : Json → Prop} (hP : (name, P) ∈ fields) :
    ∃ x, Json.get? name members = some x ∧ P x := by
  induction fields with
  | nil => cases hP
  | cons field fields ih =>
    obtain ⟨hfirst, hrest⟩ := h
    rcases List.mem_cons.mp hP with rfl | hP
    · exact hfirst
    · exact ih hrest hP

def ObjectWith (fields : List (String × (Json → Prop))) (doc : Json) : Prop :=
  ∃ members, doc = .object members ∧ HasAll fields members

def IsNode (kind : String) (fields : List (String × (Json → Prop))) : Json → Prop :=
  ObjectWith (("type", (· = .string kind)) :: fields)

def TermOf : Term String → Json → Prop
  | .string text => IsNode "string" [("value", (· = .string text))]
  | .number n => IsNode "number" [("value", (· = .number (.whole n.val)))]
  | .attr ref => IsNode "attribute" [("name", (· = .string ref))]
  | .request key => IsNode "request" [("key", (· = .string key))]
  | .coerce operand kind =>
    IsNode "coerce" [("from", TermOf operand), ("to", (· = .string kind.name))]
  | .binary op lhs rhs => IsNode op.name [("lhs", TermOf lhs), ("rhs", TermOf rhs)]
  | .rest url method params =>
    IsNode "rest" [("url", (· = .string url)), ("method", (· = .string method.name)),
      ("params", (· = .object (params.map fun (name, ref) => (name, .string ref))))]

def ConditionOf : Condition String → Json → Prop
  | .not inner => IsNode "not" [("condition", ConditionOf inner)]
  | .and lhs rhs => IsNode "and" [("lhs", ConditionOf lhs), ("rhs", ConditionOf rhs)]
  | .or lhs rhs => IsNode "or" [("lhs", ConditionOf lhs), ("rhs", ConditionOf rhs)]
  | .equal lhs rhs => IsNode "equal" [("lhs", TermOf lhs), ("rhs", TermOf rhs)]
  | .greater lhs rhs => IsNode "greater" [("lhs", TermOf lhs), ("rhs", TermOf rhs)]

mutual

/-- The decision of a rule that never applies can be any. -/
def RuleOf : Rule String → Json → Prop
  | .always decision => IsNode "always" [("decision", (· = .string decision.name))]
  | .never => IsNode "never" [("decision", fun x => ∃ d : Decision, x = .string d.name)]
  | .when condition decision =>
    IsNode "when" [("condition", ConditionOf condition), ("decision", (· = .string decision.name))]
  | .branch condition onTrue onFalse =>
    IsNode "branch" [("condition", ConditionOf condition), ("true", RuleOf onTrue),
      ("false", RuleOf onFalse)]
  | .majority decision rules =>
    IsNode "majority" [("decision", (· = .string decision.name)), ("rules", RulesOf rules)]
  | .all decision rules =>
    IsNode "all" [("decision", (· = .string decision.name)), ("rules", RulesOf rules)]
  | .any decision rules =>
    IsNode "any" [("decision", (· = .string decision.name)), ("rules", RulesOf rules)]
  | .oneOf rules => IsNode "one-of" [("rules", RulesOf rules)]

def RulesOf : List (Rule String) → Json → Prop
  | [], doc => doc = .array []
  | rule :: rules, doc => ∃ x xs, doc = .array (x :: xs) ∧ RuleOf rule x ∧ RulesOf rules (.array xs)

end

def AttributeOf (a : Attribute String) : Json → Prop :=
  ObjectWith [("name", (· = .string a.name)), ("value", TermOf a.value)]

def AttributesOf : List (Attribute String) → Json → Prop
  | [], doc => doc = .array []
  | a :: as, doc => ∃ x xs, doc = .array (x :: xs) ∧ AttributeOf a x ∧ AttributesOf as (.array xs)

/-- A document holds what a rule set is read from. -/
def RuleSetOf (set : RuleSet String) : Json → Prop :=
  ObjectWith [("attributes", AttributesOf set.attributes), ("rules", RulesOf set.rules)]

/-! ## What is described is read -/

theorem readTerm_of_termOf {t : Term String} {path : Path} {doc : Json} (h : TermOf t doc) :
    readTerm path doc = .ok t := by
  induction t generalizing path doc with
  | string text =>
    obtain ⟨members, rfl, ⟨_, htype, rfl⟩, ⟨_, hvalue, rfl⟩, -⟩ := h
    exact readTerm_string htype hvalue
  | number n =>
    obtain ⟨members, rfl, ⟨_, htype, rfl⟩, ⟨_, hvalue, rfl⟩, -⟩ := h
    rw [readTerm_number htype, requiredNumber_eq hvalue]
    rfl
  | attr ref =>
    obtain ⟨members, rfl, ⟨_, htype, rfl⟩, ⟨_, hname, rfl⟩, -⟩ := h
    exact readTerm_attr htype hname
  | request key =>
    obtain ⟨members, rfl, ⟨_, htype, rfl⟩, ⟨_, hkey, rfl⟩, -⟩ := h
    exact readTerm_request htype hkey
  | coerce operand kind ih =>
    obtain ⟨members, rfl, ⟨_, htype, rfl⟩, ⟨inner, hfrom, hinner⟩, ⟨_, hto, rfl⟩, -⟩ := h
    rw [readTerm_coerce_of_get htype hfrom hto, ih hinner]
    rfl
  | binary op lhs rhs ihl ihr =>
    obtain ⟨members, rfl, ⟨_, htype, rfl⟩, ⟨l, hlhs, hl⟩, ⟨r, hrhs, hr⟩, -⟩ := h
    rw [readTerm_binary htype hlhs hrhs, ihl hl, ok_bind, ihr hr]
    rfl
  | rest url method params =>
    obtain ⟨members, rfl, ⟨_, htype, rfl⟩, ⟨_, hurl, rfl⟩, ⟨_, hmethod, rfl⟩,
      ⟨_, hparams, rfl⟩, -⟩ := h
    exact readTerm_rest htype hurl hmethod hparams

theorem readCondition_of_conditionOf {c : Condition String} {path : Path} {doc : Json}
    (h : ConditionOf c doc) : readCondition path doc = .ok c := by
  induction c generalizing path doc with
  | not inner ih =>
    obtain ⟨members, rfl, ⟨_, htype, rfl⟩, ⟨x, hx, hinner⟩, -⟩ := h
    rw [readCondition_not htype hx, ih hinner]
    rfl
  | and lhs rhs ihl ihr =>
    obtain ⟨members, rfl, ⟨_, htype, rfl⟩, ⟨l, hlhs, hl⟩, ⟨r, hrhs, hr⟩, -⟩ := h
    rw [readCondition_join (.head _) htype hlhs hrhs, ihl hl, ok_bind, ihr hr]
    rfl
  | or lhs rhs ihl ihr =>
    obtain ⟨members, rfl, ⟨_, htype, rfl⟩, ⟨l, hlhs, hl⟩, ⟨r, hrhs, hr⟩, -⟩ := h
    rw [readCondition_join (.tail _ (.head _)) htype hlhs hrhs, ihl hl, ok_bind, ihr hr]
    rfl
  | equal lhs rhs =>
    obtain ⟨members, rfl, ⟨_, htype, rfl⟩, ⟨l, hlhs, hl⟩, ⟨r, hrhs, hr⟩, -⟩ := h
    rw [readCondition_compare (.head _) htype hlhs hrhs, readTerm_of_termOf hl, ok_bind,
      readTerm_of_termOf hr]
    rfl
  | greater lhs rhs =>
    obtain ⟨members, rfl, ⟨_, htype, rfl⟩, ⟨l, hlhs, hl⟩, ⟨r, hrhs, hr⟩, -⟩ := h
    rw [readCondition_compare (.tail _ (.head _)) htype hlhs hrhs, readTerm_of_termOf hl, ok_bind,
      readTerm_of_termOf hr]
    rfl

theorem exists_array_of_rulesOf {rs : List (Rule String)} {doc : Json} (h : RulesOf rs doc) :
    ∃ items, doc = .array items := by
  cases rs with
  | nil => exact ⟨[], h⟩
  | cons r rs =>
    obtain ⟨x, xs, rfl, -⟩ := h
    exact ⟨_, rfl⟩

mutual

theorem readRule_of_ruleOf (r : Rule String) {path : Path} {doc : Json} (h : RuleOf r doc) :
    readRule path doc = .ok r := by
  cases r with
  | always decision =>
    obtain ⟨members, rfl, ⟨_, htype, rfl⟩, ⟨_, hdecision, rfl⟩, -⟩ := h
    exact readRule_always htype hdecision
  | never =>
    obtain ⟨members, rfl, ⟨_, htype, rfl⟩, ⟨_, hdecision, d, rfl⟩, -⟩ := h
    exact readRule_never htype hdecision
  | when condition decision =>
    obtain ⟨members, rfl, ⟨_, htype, rfl⟩, ⟨c, hcondition, hc⟩, ⟨_, hdecision, rfl⟩, -⟩ := h
    rw [readRule_when htype hcondition hdecision, readCondition_of_conditionOf hc]
    rfl
  | branch condition onTrue onFalse =>
    obtain ⟨members, rfl, ⟨_, htype, rfl⟩, ⟨c, hcondition, hc⟩, ⟨t, htrue, ht⟩, ⟨f, hfalse, hf⟩,
      -⟩ := h
    rw [readRule_branch htype hcondition htrue hfalse, readCondition_of_conditionOf hc, ok_bind,
      readRule_of_ruleOf onTrue ht, ok_bind, readRule_of_ruleOf onFalse hf]
    rfl
  | majority decision rules =>
    obtain ⟨members, rfl, ⟨_, htype, rfl⟩, ⟨_, hdecision, rfl⟩, ⟨_, hrules, hr⟩, -⟩ := h
    obtain ⟨items, rfl⟩ := exists_array_of_rulesOf hr
    rw [readRule_group (.head _) htype hdecision hrules, readRules_of_rulesOf rules hr]
    rfl
  | all decision rules =>
    obtain ⟨members, rfl, ⟨_, htype, rfl⟩, ⟨_, hdecision, rfl⟩, ⟨_, hrules, hr⟩, -⟩ := h
    obtain ⟨items, rfl⟩ := exists_array_of_rulesOf hr
    rw [readRule_group (.tail _ (.head _)) htype hdecision hrules, readRules_of_rulesOf rules hr]
    rfl
  | any decision rules =>
    obtain ⟨members, rfl, ⟨_, htype, rfl⟩, ⟨_, hdecision, rfl⟩, ⟨_, hrules, hr⟩, -⟩ := h
    obtain ⟨items, rfl⟩ := exists_array_of_rulesOf hr
    rw [readRule_group (.tail _ (.tail _ (.head _))) htype hdecision hrules,
      readRules_of_rulesOf rules hr]
    rfl
  | oneOf rules =>
    obtain ⟨members, rfl, ⟨_, htype, rfl⟩, ⟨_, hrules, hr⟩, -⟩ := h
    obtain ⟨items, rfl⟩ := exists_array_of_rulesOf hr
    rw [readRule_oneOf htype hrules, readRules_of_rulesOf rules hr]
    rfl

theorem readRules_of_rulesOf (rs : List (Rule String)) {path : Path} {index : Nat}
    {items : List Json} (h : RulesOf rs (.array items)) : readRules path index items = .ok rs := by
  match rs with
  | [] =>
    cases h
    rw [readRules]
  | r :: rs =>
    obtain ⟨x, xs, heq, hx, hxs⟩ := h
    cases heq
    rw [readRules, readRule_of_ruleOf r hx, ok_bind, readRules_of_rulesOf rs hxs]
    rfl

end

/-! ## What is read is described

By recursion on the document, the way in which it is read. -/

theorem get_of_requiredDecision {path : Path} {members : List (String × Json)}
    {decision : Decision} (h : requiredDecision path (.object members) = .ok decision) :
    Json.get? "decision" members = some (.string decision.name) := by
  obtain ⟨text, hget, hname⟩ := get_of_requiredName h
  cases Decision.name_of_ofName hname
  exact hget

theorem eq_join_of_read {α β : Type} {path : Path} {members : List (String × Json)}
    {reader : Path → Json → Except Problem α} {join : α → α → β} {b : β}
    (h : (do
      let ⟨lhs, _⟩ ← required path "lhs" (.object members)
      let lhs ← reader (path.field "lhs") lhs
      let ⟨rhs, _⟩ ← required path "rhs" (.object members)
      let rhs ← reader (path.field "rhs") rhs
      pure (join lhs rhs)) = Except.ok b) :
    ∃ lhs rhs l r, sizeOf lhs < sizeOf (Json.object members) ∧
      sizeOf rhs < sizeOf (Json.object members) ∧ Json.get? "lhs" members = some lhs ∧
      Json.get? "rhs" members = some rhs ∧ reader (path.field "lhs") lhs = .ok l ∧
      reader (path.field "rhs") rhs = .ok r ∧ b = join l r := by
  obtain ⟨⟨lhs, hsizel⟩, hlhs, h⟩ := bind_ok_iff.mp h
  obtain ⟨l, hl, h⟩ := bind_ok_iff.mp h
  obtain ⟨⟨rhs, hsizer⟩, hrhs, h⟩ := bind_ok_iff.mp h
  obtain ⟨r, hr, h⟩ := bind_ok_iff.mp h
  cases h
  exact ⟨lhs, rhs, l, r, hsizel, hsizer, get_of_required hlhs, get_of_required hrhs, hl, hr, rfl⟩

theorem eq_group_of_read {path : Path} {members : List (String × Json)}
    {group : Decision → List (Rule String) → Rule String} {rule : Rule String}
    (h : (do
      let decision ← requiredDecision path (.object members)
      let ⟨rules, _⟩ ← requiredItems path "rules" (.object members)
      let rules ← readRules (path.field "rules") 0 rules
      pure (group decision rules)) = Except.ok rule) :
    ∃ decision items rules, sizeOf items < sizeOf (Json.object members) ∧
      Json.get? "decision" members = some (.string decision.name) ∧
      Json.get? "rules" members = some (.array items) ∧
      readRules (path.field "rules") 0 items = .ok rules ∧ rule = group decision rules := by
  obtain ⟨decision, hdecision, h⟩ := bind_ok_iff.mp h
  obtain ⟨⟨items, hsize⟩, hitems, h⟩ := bind_ok_iff.mp h
  obtain ⟨rules, hrules, h⟩ := bind_ok_iff.mp h
  cases h
  exact ⟨decision, items, rules, hsize, get_of_requiredDecision hdecision,
    get_of_requiredItems hitems, hrules, rfl⟩

theorem termOf_of_readTerm (path : Path) (doc : Json) {t : Term String}
    (h : readTerm path doc = .ok t) : TermOf t doc := by
  rw [readTerm] at h
  obtain ⟨kind, hkind, h⟩ := bind_ok_iff.mp h
  obtain ⟨members, rfl, htype⟩ := requiredText_eq_ok hkind
  split at h
  · obtain ⟨text, htext, h⟩ := bind_ok_iff.mp h
    cases h
    exact ⟨members, rfl, ⟨_, htype, rfl⟩, ⟨_, get_of_requiredText htext, rfl⟩, trivial⟩
  · obtain ⟨n, hn, h⟩ := bind_ok_iff.mp h
    cases h
    exact ⟨members, rfl, ⟨_, htype, rfl⟩, ⟨_, get_of_requiredNumber hn, rfl⟩, trivial⟩
  · obtain ⟨ref, href, h⟩ := bind_ok_iff.mp h
    cases h
    exact ⟨members, rfl, ⟨_, htype, rfl⟩, ⟨_, get_of_requiredText href, rfl⟩, trivial⟩
  · obtain ⟨key, hkey, h⟩ := bind_ok_iff.mp h
    cases h
    exact ⟨members, rfl, ⟨_, htype, rfl⟩, ⟨_, get_of_requiredText hkey, rfl⟩, trivial⟩
  · obtain ⟨url, hurl, h⟩ := bind_ok_iff.mp h
    obtain ⟨method, hmethod, h⟩ := bind_ok_iff.mp h
    obtain ⟨params, hparams, h⟩ := bind_ok_iff.mp h
    cases h
    obtain ⟨text, hget, hname⟩ := get_of_requiredName hmethod
    cases Method.name_of_ofName hname
    exact ⟨members, rfl, ⟨_, htype, rfl⟩, ⟨_, get_of_requiredText hurl, rfl⟩, ⟨_, hget, rfl⟩,
      ⟨_, get_of_requiredParams hparams, rfl⟩, trivial⟩
  · obtain ⟨⟨inner, hsize⟩, hfrom, h⟩ := bind_ok_iff.mp h
    obtain ⟨operand, hoperand, h⟩ := bind_ok_iff.mp h
    obtain ⟨target, htarget, h⟩ := bind_ok_iff.mp h
    cases h
    obtain ⟨text, hto, hname⟩ := get_of_requiredName htarget
    cases Kind.name_of_ofName hname
    have hinner := termOf_of_readTerm _ inner hoperand
    exact ⟨members, rfl, ⟨_, htype, rfl⟩, ⟨_, get_of_required hfrom, hinner⟩, ⟨_, hto, rfl⟩,
      trivial⟩
  · split at h
    · next op hop =>
      obtain ⟨lhs, rhs, l, r, hsizel, hsizer, hlhs, hrhs, hl, hr, rfl⟩ := eq_join_of_read h
      cases Operator.name_of_ofName hop
      have hleft := termOf_of_readTerm _ lhs hl
      have hright := termOf_of_readTerm _ rhs hr
      exact ⟨members, rfl, ⟨_, htype, rfl⟩, ⟨_, hlhs, hleft⟩, ⟨_, hrhs, hright⟩, trivial⟩
    · cases h
termination_by sizeOf doc

theorem get_of_readTerms {path : Path} {members : List (String × Json)}
    {terms : Term String × Term String} (h : readTerms path (.object members) = .ok terms) :
    HasAll [("lhs", TermOf terms.1), ("rhs", TermOf terms.2)] members := by
  rw [readTerms] at h
  obtain ⟨lhs, rhs, l, r, -, -, hlhs, hrhs, hl, hr, rfl⟩ := eq_join_of_read h
  exact ⟨⟨_, hlhs, termOf_of_readTerm _ _ hl⟩, ⟨_, hrhs, termOf_of_readTerm _ _ hr⟩, trivial⟩

theorem conditionOf_of_readCondition (path : Path) (doc : Json) {c : Condition String}
    (h : readCondition path doc = .ok c) : ConditionOf c doc := by
  rw [readCondition] at h
  obtain ⟨kind, hkind, h⟩ := bind_ok_iff.mp h
  obtain ⟨members, rfl, htype⟩ := requiredText_eq_ok hkind
  split at h
  · obtain ⟨⟨inner, hsize⟩, hget, h⟩ := bind_ok_iff.mp h
    obtain ⟨i, hi, h⟩ := bind_ok_iff.mp h
    cases h
    have hinner := conditionOf_of_readCondition _ inner hi
    exact ⟨members, rfl, ⟨_, htype, rfl⟩, ⟨_, get_of_required hget, hinner⟩, trivial⟩
  · obtain ⟨lhs, rhs, l, r, hsizel, hsizer, hlhs, hrhs, hl, hr, rfl⟩ := eq_join_of_read h
    have hleft := conditionOf_of_readCondition _ lhs hl
    have hright := conditionOf_of_readCondition _ rhs hr
    exact ⟨members, rfl, ⟨_, htype, rfl⟩, ⟨_, hlhs, hleft⟩, ⟨_, hrhs, hright⟩, trivial⟩
  · obtain ⟨lhs, rhs, l, r, hsizel, hsizer, hlhs, hrhs, hl, hr, rfl⟩ := eq_join_of_read h
    have hleft := conditionOf_of_readCondition _ lhs hl
    have hright := conditionOf_of_readCondition _ rhs hr
    exact ⟨members, rfl, ⟨_, htype, rfl⟩, ⟨_, hlhs, hleft⟩, ⟨_, hrhs, hright⟩, trivial⟩
  · obtain ⟨terms, hterms, h⟩ := bind_ok_iff.mp h
    cases h
    exact ⟨members, rfl, ⟨_, htype, rfl⟩, get_of_readTerms hterms⟩
  · obtain ⟨terms, hterms, h⟩ := bind_ok_iff.mp h
    cases h
    exact ⟨members, rfl, ⟨_, htype, rfl⟩, get_of_readTerms hterms⟩
  · cases h
termination_by sizeOf doc

mutual

theorem ruleOf_of_readRule (path : Path) (doc : Json) {r : Rule String}
    (h : readRule path doc = .ok r) : RuleOf r doc := by
  rw [readRule] at h
  obtain ⟨kind, hkind, h⟩ := bind_ok_iff.mp h
  obtain ⟨members, rfl, htype⟩ := requiredText_eq_ok hkind
  split at h
  · obtain ⟨decision, hdecision, h⟩ := bind_ok_iff.mp h
    cases h
    exact ⟨members, rfl, ⟨_, htype, rfl⟩, ⟨_, get_of_requiredDecision hdecision, rfl⟩, trivial⟩
  · obtain ⟨decision, hdecision, h⟩ := bind_ok_iff.mp h
    cases h
    exact ⟨members, rfl, ⟨_, htype, rfl⟩, ⟨_, get_of_requiredDecision hdecision, decision, rfl⟩,
      trivial⟩
  · obtain ⟨⟨inner, hsize⟩, hget, h⟩ := bind_ok_iff.mp h
    obtain ⟨c, hc, h⟩ := bind_ok_iff.mp h
    obtain ⟨decision, hdecision, h⟩ := bind_ok_iff.mp h
    cases h
    have hcondition := conditionOf_of_readCondition _ inner hc
    exact ⟨members, rfl, ⟨_, htype, rfl⟩, ⟨_, get_of_required hget, hcondition⟩,
      ⟨_, get_of_requiredDecision hdecision, rfl⟩, trivial⟩
  · obtain ⟨⟨inner, hsize⟩, hget, h⟩ := bind_ok_iff.mp h
    obtain ⟨c, hc, h⟩ := bind_ok_iff.mp h
    obtain ⟨⟨onTrue, hsizet⟩, htrue, h⟩ := bind_ok_iff.mp h
    obtain ⟨t, ht, h⟩ := bind_ok_iff.mp h
    obtain ⟨⟨onFalse, hsizef⟩, hfalse, h⟩ := bind_ok_iff.mp h
    obtain ⟨f, hf, h⟩ := bind_ok_iff.mp h
    cases h
    have hcondition := conditionOf_of_readCondition _ inner hc
    have ht := ruleOf_of_readRule _ onTrue ht
    have hf := ruleOf_of_readRule _ onFalse hf
    exact ⟨members, rfl, ⟨_, htype, rfl⟩, ⟨_, get_of_required hget, hcondition⟩,
      ⟨_, get_of_required htrue, ht⟩, ⟨_, get_of_required hfalse, hf⟩, trivial⟩
  · obtain ⟨decision, items, rules, hsize, hdecision, hitems, hrules, rfl⟩ := eq_group_of_read h
    have hr := rulesOf_of_readRules _ 0 items hrules
    exact ⟨members, rfl, ⟨_, htype, rfl⟩, ⟨_, hdecision, rfl⟩, ⟨_, hitems, hr⟩, trivial⟩
  · obtain ⟨decision, items, rules, hsize, hdecision, hitems, hrules, rfl⟩ := eq_group_of_read h
    have hr := rulesOf_of_readRules _ 0 items hrules
    exact ⟨members, rfl, ⟨_, htype, rfl⟩, ⟨_, hdecision, rfl⟩, ⟨_, hitems, hr⟩, trivial⟩
  · obtain ⟨decision, items, rules, hsize, hdecision, hitems, hrules, rfl⟩ := eq_group_of_read h
    have hr := rulesOf_of_readRules _ 0 items hrules
    exact ⟨members, rfl, ⟨_, htype, rfl⟩, ⟨_, hdecision, rfl⟩, ⟨_, hitems, hr⟩, trivial⟩
  · obtain ⟨⟨items, hsize⟩, hitems, h⟩ := bind_ok_iff.mp h
    obtain ⟨rules, hrules, h⟩ := bind_ok_iff.mp h
    cases h
    have hr := rulesOf_of_readRules _ 0 items hrules
    exact ⟨members, rfl, ⟨_, htype, rfl⟩, ⟨_, get_of_requiredItems hitems, hr⟩, trivial⟩
  · cases h
termination_by sizeOf doc

theorem rulesOf_of_readRules (path : Path) (index : Nat) (docs : List Json)
    {rs : List (Rule String)} (h : readRules path index docs = .ok rs) :
    RulesOf rs (.array docs) := by
  match docs with
  | [] =>
    rw [readRules] at h
    cases h
    rfl
  | x :: xs =>
    rw [readRules] at h
    obtain ⟨r, hr, h⟩ := bind_ok_iff.mp h
    obtain ⟨rest, hrest, h⟩ := bind_ok_iff.mp h
    cases h
    exact ⟨x, xs, rfl, ruleOf_of_readRule _ x hr, rulesOf_of_readRules path (index + 1) xs hrest⟩
termination_by sizeOf docs

end

/-! ## Rule sets -/

theorem readAttribute_eq_ok_iff {path : Path} {doc : Json} {a : Attribute String} :
    readAttribute path doc = .ok a ↔ AttributeOf a doc := by
  constructor
  · intro h
    rw [readAttribute] at h
    obtain ⟨name, hname, h⟩ := bind_ok_iff.mp h
    obtain ⟨members, rfl, hget⟩ := requiredText_eq_ok hname
    obtain ⟨⟨value, _⟩, hvalue, h⟩ := bind_ok_iff.mp h
    obtain ⟨t, ht, h⟩ := bind_ok_iff.mp h
    cases h
    exact ⟨members, rfl, ⟨_, hget, rfl⟩,
      ⟨_, get_of_required hvalue, termOf_of_readTerm _ value ht⟩, trivial⟩
  · rintro ⟨members, rfl, ⟨_, hname, rfl⟩, ⟨value, hvalue, ht⟩, -⟩
    rw [readAttribute_eq hname hvalue, readTerm_of_termOf ht]
    rfl

theorem readAttributes_eq_ok_iff {path : Path} {index : Nat} {docs : List Json}
    {as : List (Attribute String)} :
    readAttributes path index docs = .ok as ↔ AttributesOf as (.array docs) := by
  induction docs generalizing index as with
  | nil =>
    cases as with
    | nil => exact ⟨fun _ => rfl, fun _ => rfl⟩
    | cons a as =>
      constructor
      · intro h
        cases h
      · rintro ⟨x, xs, heq, -⟩
        cases heq
  | cons x xs ih =>
    constructor
    · intro h
      obtain ⟨a, ha, h⟩ := bind_ok_iff.mp h
      obtain ⟨rest, hrest, h⟩ := bind_ok_iff.mp h
      cases h
      exact ⟨x, xs, rfl, readAttribute_eq_ok_iff.mp ha, ih.mp hrest⟩
    · intro h
      cases as with
      | nil => cases h
      | cons a as =>
        obtain ⟨_, _, heq, ha, hrest⟩ := h
        cases heq
        rw [readAttributes, readAttribute_eq_ok_iff.mpr ha, ok_bind, ih.mpr hrest]
        rfl

theorem exists_array_of_attributesOf {as : List (Attribute String)} {doc : Json}
    (h : AttributesOf as doc) : ∃ items, doc = .array items := by
  cases as with
  | nil => exact ⟨[], h⟩
  | cons a as =>
    obtain ⟨x, xs, rfl, -⟩ := h
    exact ⟨_, rfl⟩

/-- A rule set is read from exactly the documents that hold it. -/
theorem readRuleSet_eq_ok_iff {doc : Json} {set : RuleSet String} :
    readRuleSet doc = .ok set ↔ RuleSetOf set doc := by
  constructor
  · intro h
    rw [readRuleSet] at h
    obtain ⟨⟨attributes, _⟩, hattributes, h⟩ := bind_ok_iff.mp h
    obtain ⟨members, rfl, hget⟩ := requiredItems_eq_ok hattributes
    obtain ⟨as, has, h⟩ := bind_ok_iff.mp h
    obtain ⟨⟨rules, _⟩, hrules, h⟩ := bind_ok_iff.mp h
    obtain ⟨rs, hrs, h⟩ := bind_ok_iff.mp h
    cases h
    exact ⟨members, rfl, ⟨_, hget, readAttributes_eq_ok_iff.mp has⟩,
      ⟨_, get_of_requiredItems hrules, rulesOf_of_readRules _ 0 rules hrs⟩, trivial⟩
  · rintro ⟨members, rfl, ⟨_, hattributes, has⟩, ⟨_, hrules, hrs⟩, -⟩
    obtain ⟨attributes, rfl⟩ := exists_array_of_attributesOf has
    obtain ⟨rules, rfl⟩ := exists_array_of_rulesOf hrs
    rw [readRuleSet_eq hattributes hrules, readAttributes_eq_ok_iff.mpr has, ok_bind,
      readRules_of_rulesOf set.rules hrs]
    rfl

end Document

end Policy
