import Policy.Document.Schema
import Policy.Proofs.Document.Written

namespace Policy.Document

/-! ## Members that are there -/

theorem sizeOf_get_array {name : String} {items : List Json} {members : List (String × Json)}
    (h : Json.get? name members = some (.array items)) :
    sizeOf items < sizeOf (Json.object members) := by
  have hsize := sizeOf_get h
  rw [Json.array.sizeOf_spec] at hsize
  omega

section Members

variable {path : Path} {name : String} {members : List (String × Json)}

theorem required_eq_ok {doc : Json} {x : { x : Json // sizeOf x < sizeOf doc }}
    (h : required path name doc = .ok x) :
    ∃ members, doc = .object members ∧ Json.get? name members = some x.val := by
  unfold required at h
  split at h
  · next members =>
    split at h
    · next hx =>
      cases h
      exact ⟨members, rfl, hx⟩
    · cases h
  · cases h

theorem requiredText_eq_ok {doc : Json} {text : String}
    (h : requiredText path name doc = .ok text) :
    ∃ members, doc = .object members ∧ Json.get? name members = some (.string text) := by
  rw [requiredText] at h
  obtain ⟨x, hx, h⟩ := bind_ok_iff.mp h
  obtain ⟨members, rfl, hget⟩ := required_eq_ok hx
  split at h
  · cases h
    exact ⟨members, rfl, hget⟩
  · cases h

theorem get_of_required {x : { x : Json // sizeOf x < sizeOf (Json.object members) }}
    (h : required path name (.object members) = .ok x) :
    Json.get? name members = some x.val := by
  obtain ⟨_, heq, hget⟩ := required_eq_ok h
  cases heq
  exact hget

theorem get_of_requiredText {text : String}
    (h : requiredText path name (.object members) = .ok text) :
    Json.get? name members = some (.string text) := by
  obtain ⟨_, heq, hget⟩ := requiredText_eq_ok h
  cases heq
  exact hget

theorem get_of_requiredName {α : Type} {ofName? : String → Option α}
    {unknown : Path → String → Problem} {a : α}
    (h : requiredName ofName? unknown path name (.object members) = .ok a) :
    ∃ text, Json.get? name members = some (.string text) ∧ ofName? text = some a := by
  rw [requiredName] at h
  obtain ⟨text, htext, hfound⟩ := bind_ok_iff.mp h
  split at hfound
  · next hname =>
    cases hfound
    exact ⟨text, get_of_requiredText htext, hname⟩
  · cases hfound

variable (path) in
theorem requiredItems_eq {items : List Json}
    (h : Json.get? name members = some (.array items)) :
    ∃ hsize, requiredItems path name (.object members) = .ok ⟨items, hsize⟩ := by
  rw [requiredItems, required_eq h]
  exact ⟨_, rfl⟩

theorem requiredItems_eq_ok {doc : Json} {items : { xs : List Json // sizeOf xs < sizeOf doc }}
    (h : requiredItems path name doc = .ok items) :
    ∃ members, doc = .object members ∧ Json.get? name members = some (.array items.val) := by
  rw [requiredItems] at h
  obtain ⟨x, hx, h⟩ := bind_ok_iff.mp h
  obtain ⟨members, rfl, hget⟩ := required_eq_ok hx
  split at h
  · cases h
    exact ⟨members, rfl, hget⟩
  · cases h

theorem get_of_requiredItems
    {items : { xs : List Json // sizeOf xs < sizeOf (Json.object members) }}
    (h : requiredItems path name (.object members) = .ok items) :
    Json.get? name members = some (.array items.val) := by
  obtain ⟨_, heq, hget⟩ := requiredItems_eq_ok h
  cases heq
  exact hget

theorem get_of_requiredNumber {n : Number}
    (h : requiredNumber path name (.object members) = .ok n) :
    Json.get? name members = some (.number (.whole n.val)) := by
  rw [requiredNumber] at h
  obtain ⟨x, hx, h⟩ := bind_ok_iff.mp h
  have hget := get_of_required hx
  split at h
  · split at h
    · next hn =>
      cases h
      rw [Number.ofInt_eq_some_iff.mp hn]
      exact hget
    · cases h
  · cases h

theorem readParams_eq_ok {params : List (String × String)}
    (h : readParams path members = .ok params) :
    members = params.map fun (name, ref) => (name, .string ref) := by
  induction members generalizing params with
  | nil =>
    cases h
    rfl
  | cons m members ih =>
    unfold readParams at h
    split at h
    · next heq => cases heq
    · next heq =>
      cases heq
      obtain ⟨rest, hrest, h⟩ := bind_ok_iff.mp h
      cases h
      rw [ih hrest]
      rfl
    · cases h

theorem get_of_requiredParams {params : List (String × String)}
    (h : requiredParams path (.object members) = .ok params) :
    Json.get? "params" members =
      some (.object (params.map fun (name, ref) => (name, .string ref))) := by
  rw [requiredParams] at h
  obtain ⟨x, hx, h⟩ := bind_ok_iff.mp h
  have hget := get_of_required hx
  split at h
  · rw [← readParams_eq_ok h]
    exact hget
  · cases h

end Members

/-! ## Terms -/

section Terms

variable {path : Path} {members : List (String × Json)}

theorem readTerm_string {text : String}
    (htype : Json.get? "type" members = some (.string "string"))
    (hvalue : Json.get? "value" members = some (.string text)) :
    readTerm path (.object members) = .ok (.string text) := by
  rw [readTerm, requiredText_eq htype, ok_bind]
  show (requiredText path "value" _ >>= _) = _
  rw [requiredText_eq hvalue]
  rfl

theorem readTerm_number (htype : Json.get? "type" members = some (.string "number")) :
    readTerm path (.object members) = (do
      let n ← requiredNumber path "value" (.object members)
      pure (.number n)) := by
  rw [readTerm, requiredText_eq htype, ok_bind]
  rfl

theorem readTerm_attr {ref : String}
    (htype : Json.get? "type" members = some (.string "attribute"))
    (hname : Json.get? "name" members = some (.string ref)) :
    readTerm path (.object members) = .ok (.attr ref) := by
  rw [readTerm, requiredText_eq htype, ok_bind]
  show (requiredText path "name" _ >>= _) = _
  rw [requiredText_eq hname]
  rfl

theorem readTerm_request {key : String}
    (htype : Json.get? "type" members = some (.string "request"))
    (hkey : Json.get? "key" members = some (.string key)) :
    readTerm path (.object members) = .ok (.request key) := by
  rw [readTerm, requiredText_eq htype, ok_bind]
  show (requiredText path "key" _ >>= _) = _
  rw [requiredText_eq hkey]
  rfl

theorem readTerm_rest {url : String} {method : Method} {params : List (String × String)}
    (htype : Json.get? "type" members = some (.string "rest"))
    (hurl : Json.get? "url" members = some (.string url))
    (hmethod : Json.get? "method" members = some (.string method.name))
    (hparams : Json.get? "params" members =
      some (.object (params.map fun (name, ref) => (name, .string ref)))) :
    readTerm path (.object members) = .ok (.rest url method params) := by
  have hread : requiredParams path (.object members) = .ok params := by
    rw [requiredParams, required_eq hparams]
    exact readParams_map params
  rw [readTerm, requiredText_eq htype, ok_bind]
  show (requiredText path "url" _ >>= _) = _
  rw [requiredText_eq hurl, ok_bind, requiredName_eq hmethod (Method.ofName_name method), ok_bind,
    hread]
  rfl

theorem readTerm_coerce_of_get {operand : Json} {kind : Kind}
    (htype : Json.get? "type" members = some (.string "coerce"))
    (hfrom : Json.get? "from" members = some operand)
    (hto : Json.get? "to" members = some (.string kind.name)) :
    readTerm path (.object members) = (do
      let operand ← readTerm (path.field "from") operand
      pure (.coerce operand kind)) := by
  rw [readTerm, requiredText_eq htype, ok_bind]
  show (required path "from" _ >>= _) = _
  rw [required_eq hfrom, ok_bind]
  simp only [requiredName_eq hto (Kind.ofName_name kind), ok_bind]

theorem readTerm_binary {op : Operator} {lhs rhs : Json}
    (htype : Json.get? "type" members = some (.string op.name))
    (hlhs : Json.get? "lhs" members = some lhs) (hrhs : Json.get? "rhs" members = some rhs) :
    readTerm path (.object members) = (do
      let lhs ← readTerm (path.field "lhs") lhs
      let rhs ← readTerm (path.field "rhs") rhs
      pure (.binary op lhs rhs)) := by
  have hread : (do
      let ⟨lhs, _⟩ ← required path "lhs" (.object members)
      let lhs ← readTerm (path.field "lhs") lhs
      let ⟨rhs, _⟩ ← required path "rhs" (.object members)
      let rhs ← readTerm (path.field "rhs") rhs
      pure (Term.binary op lhs rhs)) = (do
      let lhs ← readTerm (path.field "lhs") lhs
      let rhs ← readTerm (path.field "rhs") rhs
      pure (.binary op lhs rhs)) := by
    simp only [required_eq hlhs, required_eq hrhs, ok_bind]
  rw [← hread, readTerm, requiredText_eq htype, ok_bind]
  cases op with
  | _ => rfl

end Terms

/-! ## Conditions

Kinds of nodes that differ only in what they are read as share one statement. -/

/-- The kinds of nodes that join two conditions. -/
def joins : List (String × (Condition String → Condition String → Condition String)) :=
  [("and", .and), ("or", .or)]

/-- The kinds of nodes that compare two terms. -/
def comparisons : List (String × (Term String → Term String → Condition String)) :=
  [("equal", .equal), ("greater", .greater)]

/-- The kinds of nodes that put a decision over a list of rules. -/
def groups : List (String × (Decision → List (Rule String) → Rule String)) :=
  [("majority", .majority), ("all", .all), ("any", .any)]

section Conditions

variable {path : Path} {members : List (String × Json)} {kind : String} {inner lhs rhs : Json}

theorem readCondition_not (htype : Json.get? "type" members = some (.string "not"))
    (hinner : Json.get? "condition" members = some inner) :
    readCondition path (.object members) = (do
      let inner ← readCondition (path.field "condition") inner
      pure (.not inner)) := by
  rw [readCondition, requiredText_eq htype, ok_bind]
  show (required path "condition" _ >>= _) = _
  rw [required_eq hinner, ok_bind]

theorem readCondition_join
    {join : Condition String → Condition String → Condition String} (hjoin : (kind, join) ∈ joins)
    (htype : Json.get? "type" members = some (.string kind))
    (hlhs : Json.get? "lhs" members = some lhs) (hrhs : Json.get? "rhs" members = some rhs) :
    readCondition path (.object members) = (do
      let lhs ← readCondition (path.field "lhs") lhs
      let rhs ← readCondition (path.field "rhs") rhs
      pure (join lhs rhs)) := by
  rw [readCondition, requiredText_eq htype, ok_bind]
  simp only [joins, List.mem_cons, Prod.mk.injEq, List.not_mem_nil, or_false] at hjoin
  rcases hjoin with ⟨rfl, rfl⟩ | ⟨rfl, rfl⟩
  · simp only [required_eq hlhs, required_eq hrhs, ok_bind]
  · simp only [required_eq hlhs, required_eq hrhs, ok_bind]

theorem readCondition_compare {compare : Term String → Term String → Condition String}
    (hcompare : (kind, compare) ∈ comparisons)
    (htype : Json.get? "type" members = some (.string kind))
    (hlhs : Json.get? "lhs" members = some lhs) (hrhs : Json.get? "rhs" members = some rhs) :
    readCondition path (.object members) = (do
      let lhs ← readTerm (path.field "lhs") lhs
      let rhs ← readTerm (path.field "rhs") rhs
      pure (compare lhs rhs)) := by
  have hterms : readTerms path (.object members) = (do
      let lhs ← readTerm (path.field "lhs") lhs
      let rhs ← readTerm (path.field "rhs") rhs
      pure (lhs, rhs)) := by
    simp only [readTerms, required_eq hlhs, required_eq hrhs, ok_bind]
  rw [readCondition, requiredText_eq htype, ok_bind]
  simp only [comparisons, List.mem_cons, Prod.mk.injEq, List.not_mem_nil, or_false] at hcompare
  rcases hcompare with ⟨rfl, rfl⟩ | ⟨rfl, rfl⟩
  · simp only [hterms, bind_assoc, pure_bind]
  · simp only [hterms, bind_assoc, pure_bind]

end Conditions

/-! ## Rules -/

section Rules

variable {path : Path} {members : List (String × Json)} {kind : String} {decision : Decision}
  {condition onTrue onFalse : Json} {items : List Json}

theorem readRule_always (htype : Json.get? "type" members = some (.string "always"))
    (hdecision : Json.get? "decision" members = some (.string decision.name)) :
    readRule path (.object members) = .ok (.always decision) := by
  rw [readRule, requiredText_eq htype, ok_bind]
  simp only [requiredDecision_eq hdecision, ok_bind]
  rfl

theorem readRule_never (htype : Json.get? "type" members = some (.string "never"))
    (hdecision : Json.get? "decision" members = some (.string decision.name)) :
    readRule path (.object members) = .ok .never := by
  rw [readRule, requiredText_eq htype, ok_bind]
  simp only [requiredDecision_eq hdecision, ok_bind]
  rfl

theorem readRule_when (htype : Json.get? "type" members = some (.string "when"))
    (hcondition : Json.get? "condition" members = some condition)
    (hdecision : Json.get? "decision" members = some (.string decision.name)) :
    readRule path (.object members) = (do
      let condition ← readCondition (path.field "condition") condition
      pure (.when condition decision)) := by
  rw [readRule, requiredText_eq htype, ok_bind]
  simp only [required_eq hcondition, requiredDecision_eq hdecision, ok_bind]

theorem readRule_branch (htype : Json.get? "type" members = some (.string "branch"))
    (hcondition : Json.get? "condition" members = some condition)
    (htrue : Json.get? "true" members = some onTrue)
    (hfalse : Json.get? "false" members = some onFalse) :
    readRule path (.object members) = (do
      let condition ← readCondition (path.field "condition") condition
      let onTrue ← readRule (path.field "true") onTrue
      let onFalse ← readRule (path.field "false") onFalse
      pure (.branch condition onTrue onFalse)) := by
  rw [readRule, requiredText_eq htype, ok_bind]
  simp only [required_eq hcondition, required_eq htrue, required_eq hfalse, ok_bind]

theorem readRule_group {group : Decision → List (Rule String) → Rule String}
    (hgroup : (kind, group) ∈ groups) (htype : Json.get? "type" members = some (.string kind))
    (hdecision : Json.get? "decision" members = some (.string decision.name))
    (hrules : Json.get? "rules" members = some (.array items)) :
    readRule path (.object members) = (do
      let rules ← readRules (path.field "rules") 0 items
      pure (group decision rules)) := by
  obtain ⟨hsize, hitems⟩ := requiredItems_eq path hrules
  rw [readRule, requiredText_eq htype, ok_bind]
  simp only [groups, List.mem_cons, Prod.mk.injEq, List.not_mem_nil, or_false] at hgroup
  rcases hgroup with ⟨rfl, rfl⟩ | ⟨rfl, rfl⟩ | ⟨rfl, rfl⟩
  · simp only [requiredDecision_eq hdecision, hitems, ok_bind]
  · simp only [requiredDecision_eq hdecision, hitems, ok_bind]
  · simp only [requiredDecision_eq hdecision, hitems, ok_bind]

theorem readRule_oneOf (htype : Json.get? "type" members = some (.string "one-of"))
    (hrules : Json.get? "rules" members = some (.array items)) :
    readRule path (.object members) = (do
      let rules ← readRules (path.field "rules") 0 items
      pure (.oneOf rules)) := by
  obtain ⟨hsize, hitems⟩ := requiredItems_eq path hrules
  rw [readRule, requiredText_eq htype, ok_bind]
  simp only [hitems, ok_bind]

end Rules

/-! ## Attributes and rule sets -/

section RuleSets

variable {path : Path} {members : List (String × Json)} {name : String} {value : Json}
  {attributes rules : List Json}

theorem readAttribute_eq (hname : Json.get? "name" members = some (.string name))
    (hvalue : Json.get? "value" members = some value) :
    readAttribute path (.object members) = (do
      let value ← readTerm (path.field "value") value
      pure ⟨name, value⟩) := by
  simp only [readAttribute, requiredText_eq hname, required_eq hvalue, ok_bind]

theorem readRuleSet_eq (hattributes : Json.get? "attributes" members = some (.array attributes))
    (hrules : Json.get? "rules" members = some (.array rules)) :
    readRuleSet (.object members) = (do
      let attributes ← readAttributes (Path.start.field "attributes") 0 attributes
      let rules ← readRules (Path.start.field "rules") 0 rules
      pure ⟨attributes, rules⟩) := by
  obtain ⟨_, hattributes⟩ := requiredItems_eq .start hattributes
  obtain ⟨_, hrules⟩ := requiredItems_eq .start hrules
  simp only [readRuleSet, hattributes, hrules, ok_bind]

end RuleSets

/-! ## Words of the schema

Each word that the schema has for a kind or a name is one that is read. -/

theorem exists_operator {kind : String} (h : kind ∈ Schema.operators) : ∃ op : Operator, op.name = kind := by
  simp only [Schema.operators, List.mem_cons, List.not_mem_nil, or_false] at h
  rcases h with rfl | rfl | rfl | rfl | rfl
  · exact ⟨.plus, rfl⟩
  · exact ⟨.minus, rfl⟩
  · exact ⟨.times, rfl⟩
  · exact ⟨.divide, rfl⟩
  · exact ⟨.regex, rfl⟩

theorem exists_method {name : String} (h : name ∈ ["GET", "POST", "PUT", "DELETE"]) :
    ∃ method : Method, method.name = name := by
  simp only [List.mem_cons, List.not_mem_nil, or_false] at h
  rcases h with rfl | rfl | rfl | rfl
  · exact ⟨.get, rfl⟩
  · exact ⟨.post, rfl⟩
  · exact ⟨.put, rfl⟩
  · exact ⟨.delete, rfl⟩

theorem exists_kind_of_name {name : String} (h : name ∈ ["STRING", "NUMBER"]) :
    ∃ kind : Kind, kind.name = name := by
  simp only [List.mem_cons, List.not_mem_nil, or_false] at h
  rcases h with rfl | rfl
  · exact ⟨.string, rfl⟩
  · exact ⟨.number, rfl⟩

theorem exists_decision {name : String} (h : name ∈ Schema.decisions) :
    ∃ decision : Decision, decision.name = name := by
  simp only [Schema.decisions, List.mem_cons, List.not_mem_nil, or_false] at h
  rcases h with rfl | rfl | rfl
  · exact ⟨.permit, rfl⟩
  · exact ⟨.deny, rfl⟩
  · exact ⟨.undecided, rfl⟩

theorem exists_join {kind : String} (h : kind ∈ ["and", "or"]) :
    ∃ join, (kind, join) ∈ joins := by
  simp only [List.mem_cons, List.not_mem_nil, or_false] at h
  rcases h with rfl | rfl
  · exact ⟨.and, by simp [joins]⟩
  · exact ⟨.or, by simp [joins]⟩

theorem exists_comparison {kind : String} (h : kind ∈ ["equal", "greater"]) :
    ∃ compare, (kind, compare) ∈ comparisons := by
  simp only [List.mem_cons, List.not_mem_nil, or_false] at h
  rcases h with rfl | rfl
  · exact ⟨.equal, by simp [comparisons]⟩
  · exact ⟨.greater, by simp [comparisons]⟩

theorem exists_group {kind : String} (h : kind ∈ ["majority", "all", "any"]) :
    ∃ group, (kind, group) ∈ groups := by
  simp only [List.mem_cons, List.not_mem_nil, or_false] at h
  rcases h with rfl | rfl | rfl
  · exact ⟨.majority, by simp [groups]⟩
  · exact ⟨.all, by simp [groups]⟩
  · exact ⟨.any, by simp [groups]⟩

end Policy.Document
