import Policy.Document.Schema
import Policy.Document.Writing
import Policy.Proofs.Json.Members
import Policy.Proofs.WellFormed

namespace Policy.Document.Schema

open Source

/-! ## Names -/

theorem isLetter_of_isAlpha {c : Char} (h : c.isAlpha) : isLetter c := by
  simp only [isLetter, Bool.or_eq_true, Bool.and_eq_true, decide_eq_true_eq]
  exact letter_of_isAlpha h

theorem isNameChar_of_isWordChar {c : Char} (h : Lead.isWordChar c) : isNameChar c := by
  simp only [Lead.isWordChar, Char.isAlphanum, Bool.or_eq_true, decide_eq_true_eq] at h
  rcases h with (h | h) | h
  · simp [isNameChar, isLetter_of_isAlpha h]
  · have hdigit : '0' ≤ c ∧ c ≤ '9' := by
      simpa [Char.isDigit, Char.le_def] using h
    simp [isNameChar, hdigit]
  · simp [isNameChar, h]

theorem isName_of_isIdentifier {text : String} (h : isIdentifier text) : isName text := by
  simp only [isIdentifier, Bool.and_eq_true] at h
  have hword := h.1
  cases htext : text.toList with
  | nil =>
    simp only [isWord, htext] at hword
    cases hword
  | cons c cs =>
    simp only [isWord, htext, Bool.and_eq_true, List.all_eq_true] at hword
    simp only [isName, htext, Bool.and_eq_true, List.all_eq_true]
    exact ⟨isLetter_of_isAlpha hword.1, fun d hd => isNameChar_of_isWordChar (hword.2 d hd)⟩

/-! ## Nodes

Each node takes a form that its family has. -/

attribute [local simp] node judge judgeMembers judgeObject Family.forms admits Json.get?
  Shape.admits Membership.holds

theorem writeParams_of_nodup {params : List (String × String)} (h : (params.map Prod.fst).Nodup) :
    writeParams params = .object (params.map fun (name, ref) => (name, .string ref)) := by
  rw [writeParams, Json.collect_map, Json.collect_of_nodup h]

theorem names_writeParams {params : List (String × String)} (h : ParamsWellFormed params) :
    Shape.names.admits (judge (writeParams params)) := by
  rw [writeParams_of_nodup h.1]
  refine List.all_eq_true.mpr fun m hm => ?_
  obtain ⟨p, hp, rfl⟩ := List.mem_map.mp hm
  exact isName_of_isIdentifier (h.2 p hp).2

theorem term_writeTerm {t : Term String} (h : t.WellFormed) : (judge (writeTerm t)).whole.term := by
  induction t with
  | string text => rfl
  | number n => rfl
  | attr ref =>
    have hname := isName_of_isIdentifier h
    simp [writeTerm, hname]
  | coerce operand kind ih =>
    have hoperand := ih h
    cases kind <;> simp [writeTerm, Kind.name, hoperand]
  | binary op lhs rhs ihl ihr =>
    have hlhs := ihl h.1
    have hrhs := ihr h.2
    cases op <;> simp [writeTerm, Operator.name, operators, hlhs, hrhs]
  | request key => rfl
  | rest url method params =>
    have hkind : (Shape.word ["rest"]).admits (judge (.string "rest")) := rfl
    have hurl : Shape.text.admits (judge (.string url)) := rfl
    have hmethod :
        (Shape.word ["GET", "POST", "PUT", "DELETE"]).admits (judge (.string method.name)) := by
      cases method with
      | _ => rfl
    have hparams := names_writeParams h
    refine List.any_eq_true.mpr ⟨[("type", .word ["rest"]), ("url", .text),
      ("method", .word ["GET", "POST", "PUT", "DELETE"]), ("params", .names)], ?_, ?_⟩
    · simp [Family.forms]
    · simp [-judge, -Shape.admits, hkind, hurl, hmethod, hparams]

theorem condition_writeCondition {c : Condition String} (h : c.WellFormed) :
    (judge (writeCondition c)).whole.condition := by
  induction c with
  | not inner ih =>
    have hinner := ih h
    simp [writeCondition, hinner]
  | and lhs rhs ihl ihr | or lhs rhs ihl ihr =>
    have hlhs := ihl h.1
    have hrhs := ihr h.2
    simp [writeCondition, hlhs, hrhs]
  | equal lhs rhs | greater lhs rhs =>
    have hlhs := term_writeTerm h.1
    have hrhs := term_writeTerm h.2
    simp [writeCondition, hlhs, hrhs]

theorem mem_decisions (d : Decision) : d.name ∈ decisions := by
  cases d with
  | _ => decide

mutual

theorem rule_writeRule (r : Rule String) (h : r.WellFormed) :
    (judge (writeRule r)).whole.rule := by
  cases r with
  | always decision =>
    have hdecision := mem_decisions decision
    simp [writeRule, writeDecision, hdecision]
  | never => rfl
  | when condition decision =>
    have hcondition := condition_writeCondition h.1
    have hdecision := mem_decisions decision
    simp [writeRule, writeDecision, hcondition, hdecision]
  | branch condition onTrue onFalse =>
    have hcondition := condition_writeCondition h.1
    have htrue := rule_writeRule onTrue h.2.1
    have hfalse := rule_writeRule onFalse h.2.2
    simp [writeRule, hcondition, htrue, hfalse]
  | majority decision members | all decision members | any decision members =>
    have hdecision := mem_decisions decision
    have hmembers := rule_writeRules members h.2.2
    simp [writeRule, writeDecision, hdecision, hmembers]
  | oneOf members =>
    have hmembers := rule_writeRules members h.2
    simp [writeRule, hmembers]

theorem rule_writeRules (rs : List (Rule String)) (h : Rule.MembersWellFormed rs) :
    (judgeItems (writeRules rs)).rule := by
  cases rs with
  | nil => rfl
  | cons r rs =>
    have hr := rule_writeRule r h.1
    have hrs := rule_writeRules rs h.2
    simp [writeRules, judgeItems, Membership.both, hr, hrs]

end

/-! ## Rule sets -/

theorem checkAttribute_writeAttribute {a : Attribute String} (h : a.WellFormed) :
    checkAttribute (writeAttribute a) = [] := by
  have hname := isName_of_isIdentifier h.1
  have hvalue := term_writeTerm h.2
  simp [checkAttribute, writeAttribute, checkRecord, checkName, checkNode, hname, hvalue, -judge]

theorem checkRules_writeRules {rs : List (Rule String)} (h : ∀ r ∈ rs, r.WellFormed) :
    (writeRules rs).flatMap (checkNode .rule) = [] := by
  induction rs with
  | nil => rfl
  | cons r rs ih =>
    obtain ⟨hr, hrs⟩ := List.forall_mem_cons.mp h
    have hrule := rule_writeRule r hr
    simp [writeRules, checkNode, hrule, ih hrs]

/-- The document of what a policy text can express has no violations. -/
theorem check_writeRuleSet {set : RuleSet String} (h : set.WellFormed) :
    check (writeRuleSet set) = [] := by
  have hattributes : (set.attributes.map writeAttribute).flatMap checkAttribute = [] := by
    rw [List.flatMap_eq_nil_iff]
    intro doc hdoc
    obtain ⟨a, ha, rfl⟩ := List.mem_map.mp hdoc
    exact checkAttribute_writeAttribute (h.attributes a ha)
  have hrules := checkRules_writeRules h.rules
  simp [check, writeRuleSet, checkRecord, checkItems, hattributes, hrules]

end Policy.Document.Schema
