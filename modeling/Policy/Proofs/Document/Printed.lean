import Policy.Proofs.Document.Written
import Policy.Proofs.Json.Pretty

namespace Policy.Document

open Json

/-! ## Documents of rule sets are plain -/

theorem plain_texts (texts : List (String × String)) :
    PlainMembers (texts.map fun (name, ref) => (name, .string ref)) := by
  induction texts with
  | nil => trivial
  | cons p texts ih => exact ⟨trivial, ih⟩

theorem plain_writeParams (params : List (String × String)) : (writeParams params).Plain := by
  refine ⟨nodup_collect _, ?_⟩
  rw [collect_map]
  exact plain_texts _

theorem plain_node (kind : String) {members : List (String × Json)}
    (hnames : ("type" :: members.map Prod.fst).Nodup) (hmembers : PlainMembers members) :
    (node kind members).Plain := by
  refine ⟨?_, trivial, hmembers⟩
  rw [List.map_cons]
  exact hnames

theorem plain_writeTerm (t : Term String) : (writeTerm t).Plain := by
  induction t with
  | string text | attr ref | request key =>
    apply plain_node
    · simp
    · exact ⟨trivial, trivial⟩
  | number n =>
    apply plain_node
    · simp
    · exact ⟨⟨n, rfl⟩, trivial⟩
  | coerce operand kind ih =>
    apply plain_node
    · simp
    · exact ⟨ih, trivial, trivial⟩
  | binary op lhs rhs ihl ihr =>
    apply plain_node
    · simp
    · exact ⟨ihl, ihr, trivial⟩
  | rest url method params =>
    have hparams := plain_writeParams params
    apply plain_node
    · simp
    · exact ⟨trivial, trivial, hparams, trivial⟩

theorem plain_writeCondition (c : Condition String) : (writeCondition c).Plain := by
  induction c with
  | not inner ih =>
    apply plain_node
    · simp
    · exact ⟨ih, trivial⟩
  | and lhs rhs ihl ihr | or lhs rhs ihl ihr =>
    apply plain_node
    · simp
    · exact ⟨ihl, ihr, trivial⟩
  | equal lhs rhs | greater lhs rhs =>
    have hlhs := plain_writeTerm lhs
    have hrhs := plain_writeTerm rhs
    apply plain_node
    · simp
    · exact ⟨hlhs, hrhs, trivial⟩

mutual

theorem plain_writeRule (r : Rule String) : (writeRule r).Plain := by
  cases r with
  | always decision | never =>
    apply plain_node
    · simp [writeDecision]
    · exact ⟨trivial, trivial⟩
  | when condition decision =>
    have hcondition := plain_writeCondition condition
    apply plain_node
    · simp [writeDecision]
    · exact ⟨hcondition, trivial, trivial⟩
  | branch condition onTrue onFalse =>
    have hcondition := plain_writeCondition condition
    have htrue := plain_writeRule onTrue
    have hfalse := plain_writeRule onFalse
    apply plain_node
    · simp
    · exact ⟨hcondition, htrue, hfalse, trivial⟩
  | majority decision members | all decision members | any decision members =>
    have hmembers := plain_writeRules members
    apply plain_node
    · simp [writeDecision]
    · exact ⟨trivial, hmembers, trivial⟩
  | oneOf members =>
    have hmembers := plain_writeRules members
    apply plain_node
    · simp
    · exact ⟨hmembers, trivial⟩

theorem plain_writeRules (rs : List (Rule String)) : PlainItems (writeRules rs) := by
  cases rs with
  | nil => trivial
  | cons r rs => exact ⟨plain_writeRule r, plain_writeRules rs⟩

end

theorem plain_writeAttribute (a : Attribute String) : (writeAttribute a).Plain := by
  have hvalue := plain_writeTerm a.value
  refine ⟨?_, trivial, hvalue, trivial⟩
  simp

theorem plain_writeRuleSet (set : RuleSet String) : (writeRuleSet set).Plain := by
  have hattributes : ∀ as : List (Attribute String), PlainItems (as.map writeAttribute) := by
    intro as
    induction as with
    | nil => trivial
    | cons a as ih => exact ⟨plain_writeAttribute a, ih⟩
  have hrules := plain_writeRules set.rules
  refine ⟨?_, hattributes set.attributes, hrules, trivial⟩
  simp

/-! ## Texts of documents -/

/-- The printed document of a rule set describes the rule set again, as long as its levels are
within the limit, and is no document at all beyond. -/
theorem read_printed (set : RuleSet String) :
    Document.read ((writeRuleSet set).pretty ++ "\n") =
      if (writeRuleSet set).levels ≤ levelLimit then .ok set.norm else .error .notJson := by
  rw [Document.read, read_pretty (plain_writeRuleSet set)]
  by_cases h : (writeRuleSet set).levels ≤ levelLimit
  · rw [if_pos h, if_pos h]
    exact readRuleSet_writeRuleSet set
  · rw [if_neg h, if_neg h]

end Policy.Document
