import Policy.Proofs.Document.Rewritten

namespace Policy.Document

open Schema

/-! ## Members that are read

Of a node only the members count that its kind has in the schema. -/

/-- The names that the schema has for a kind of nodes. -/
def namesOf (kind : String) : List String :=
  let forms := Family.term.forms ++ Family.condition.forms ++ Family.rule.forms
  (forms.filter fun form => (kinds form).contains kind).flatMap fun form => form.map Prod.fst

def Named (members : List (String × Json)) (name : String) : Prop :=
  name = "type" ∨ ∃ kind, Json.get? "type" members = some (.string kind) ∧ name ∈ namesOf kind

/-- Two nodes are of one kind and have the same members as far as this kind has them. -/
def NodesAgree : Json → Json → Prop := Same Named

/-- Two objects have the same members as far as a record goes. -/
def AgreeOn (record : List (String × (Json → Json → Prop))) (doc other : Json) : Prop :=
  ∃ members others, doc = .object members ∧ other = .object others ∧
    ∀ field ∈ record,
      Option.Rel field.2 (Json.get? field.1 members) (Json.get? field.1 others)

def ItemsAgree (R : Json → Json → Prop) (doc other : Json) : Prop :=
  ∃ items others, doc = .array items ∧ other = .array others ∧ List.Forall₂ R items others

def AttributesAgree : Json → Json → Prop := AgreeOn [("name", Eq), ("value", NodesAgree)]

/-- Two documents are the same but for the order of members that are no parameters, and for
members that the schema does not have where they stand. -/
def Agree : Json → Json → Prop :=
  AgreeOn [("attributes", ItemsAgree AttributesAgree), ("rules", ItemsAgree NodesAgree)]

theorem same_refl {heeded : List (String × Json) → String → Prop} (doc : Json) :
    Same heeded doc doc := by
  cases doc with
  | object members =>
    refine (same_object_iff members _).mpr ⟨members, rfl, fun name _ => ?_⟩
    cases hx : Json.get? name members with
    | none => exact .none
    | some x =>
      have hsize : sizeOf x < 1 + sizeOf members := by
        rw [← Json.object.sizeOf_spec]
        exact sizeOf_get hx
      have hsame : Same heeded x x := same_refl x
      refine .some ?_
      rw [Under]
      split
      · rfl
      · exact hsame
  | array items =>
    refine (same_array_iff items _).mpr ⟨items, rfl, List.forall₂_same.mpr fun x hx => ?_⟩
    have hsize := List.sizeOf_lt_of_mem hx
    exact same_refl x
  | _ => rfl
termination_by sizeOf doc

theorem nodesAgree_of_get {members others : List (String × Json)}
    (h : ∀ name, Named members name → Json.get? name others = Json.get? name members) :
    NodesAgree (.object members) (.object others) := by
  obtain ⟨_, heq, hrefl⟩ := (same_object_iff members _).mp (same_refl (.object members))
  cases heq
  refine (same_object_iff members _).mpr ⟨others, rfl, fun name hname => ?_⟩
  rw [h name hname]
  exact hrefl name hname

/-- Members can be added that the schema does not have for a node of this kind. -/
theorem nodesAgree_append (members : List (String × Json)) {extra : List (String × Json)}
    (h : ∀ m ∈ extra, ¬ Named members m.1) :
    NodesAgree (.object members) (.object (members ++ extra)) := by
  refine nodesAgree_of_get fun name hname => Json.get_append_of_notMem members fun hmem => ?_
  obtain ⟨m, hm, rfl⟩ := List.mem_map.mp hmem
  exact h m hm hname

/-- Members can be put into another order. -/
theorem nodesAgree_of_perm {members others : List (String × Json)}
    (hnodup : (members.map Prod.fst).Nodup) (h : members.Perm others) :
    NodesAgree (.object members) (.object others) :=
  nodesAgree_of_get fun name _ => Json.get_of_perm hnodup h name

/-! ## What is asked of a member -/

/-- What is asked of the member of a name holds of all that agree. -/
def Kept (name : String) (P : Json → Prop) : Prop :=
  ∀ x y, Under NodesAgree name x y → P x → P y

theorem kept_text (name text : String) : Kept name (· = .string text) := by
  rintro _ y h rfl
  by_cases hname : name = "params"
  · simpa [Under, hname] using h
  · simpa [Under, hname, NodesAgree, Same] using h

theorem kept_number (name : String) (n : Json.Number) : Kept name (· = .number n) := by
  rintro _ y h rfl
  by_cases hname : name = "params"
  · simpa [Under, hname] using h
  · simpa [Under, hname, NodesAgree, Same] using h

theorem kept_decision (name : String) :
    Kept name fun x => ∃ d : Decision, x = .string d.name := by
  rintro x y h ⟨d, hx⟩
  exact ⟨d, kept_text name d.name x y h hx⟩

theorem kept_params (params : Json) : Kept "params" (· = params) := by
  rintro _ y rfl rfl
  rfl

theorem kept_part {name : String} {P : Json → Prop} (hname : name ≠ "params")
    (h : ∀ x y, NodesAgree x y → P x → P y) : Kept name P := by
  intro x y hxy
  rw [Under, if_neg hname] at hxy
  exact h x y hxy

theorem hasAll_of_agree {members others : List (String × Json)}
    (hagree : ∀ name, Named members name →
      Option.Rel (Under NodesAgree name) (Json.get? name members) (Json.get? name others))
    {fields : List (String × (Json → Prop))} (hnames : ∀ field ∈ fields, Named members field.1)
    (hkept : ∀ field ∈ fields, Kept field.1 field.2) (h : HasAll fields members) :
    HasAll fields others := by
  induction fields with
  | nil => trivial
  | cons field fields ih =>
    obtain ⟨name, P⟩ := field
    obtain ⟨hname, hnames⟩ := List.forall_mem_cons.mp hnames
    obtain ⟨hfirst, hkept⟩ := List.forall_mem_cons.mp hkept
    obtain ⟨⟨x, hx, hP⟩, hrest⟩ := h
    have hrel := hagree name hname
    rw [hx] at hrel
    generalize hy : Json.get? name others = found at hrel
    cases hrel with
    | some hxy => exact ⟨⟨_, hy, hfirst x _ hxy hP⟩, ih hnames hkept hrest⟩

theorem isNode_of_agree {kind : String} {fields : List (String × (Json → Prop))}
    {doc other : Json} (hagree : NodesAgree doc other)
    (hnames : namesOf kind = "type" :: fields.map Prod.fst)
    (hkept : ∀ field ∈ fields, Kept field.1 field.2) (h : IsNode kind fields doc) :
    IsNode kind fields other := by
  obtain ⟨members, rfl, htype, hfields⟩ := h
  obtain ⟨others, rfl, hmembers⟩ := (same_object_iff members other).mp hagree
  obtain ⟨_, hkind, rfl⟩ := htype
  have hnamed : ∀ field ∈ fields, Named members field.1 := by
    intro field hfield
    refine .inr ⟨kind, hkind, ?_⟩
    rw [hnames]
    exact List.mem_cons_of_mem _ (List.mem_map_of_mem hfield)
  have htype : HasAll [("type", (· = .string kind))] others :=
    hasAll_of_agree hmembers (by simp [Named]) (by simp [kept_text]) ⟨⟨_, hkind, rfl⟩, trivial⟩
  exact ⟨others, rfl, htype.1, hasAll_of_agree hmembers hnamed hkept hfields⟩

/-! ## Documents that agree are read alike -/

theorem termOf_of_agree {t : Term String} {doc other : Json} (hagree : NodesAgree doc other)
    (h : TermOf t doc) : TermOf t other := by
  induction t generalizing doc other with
  | string text | attr ref | request key =>
    exact isNode_of_agree hagree rfl (by simp [kept_text]) h
  | number n => exact isNode_of_agree hagree rfl (by simp [kept_number]) h
  | coerce operand kind ih =>
    have hfrom : Kept "from" (TermOf operand) := kept_part (by decide) fun _ _ => ih
    exact isNode_of_agree hagree rfl (by simp [kept_text, hfrom]) h
  | binary op lhs rhs ihl ihr =>
    have hlhs : Kept "lhs" (TermOf lhs) := kept_part (by decide) fun _ _ => ihl
    have hrhs : Kept "rhs" (TermOf rhs) := kept_part (by decide) fun _ _ => ihr
    refine isNode_of_agree hagree ?_ (by simp [hlhs, hrhs]) h
    cases op with
    | _ => rfl
  | rest url method params =>
    exact isNode_of_agree hagree rfl (by simp [kept_text, kept_params]) h

theorem conditionOf_of_agree {c : Condition String} {doc other : Json}
    (hagree : NodesAgree doc other) (h : ConditionOf c doc) : ConditionOf c other := by
  induction c generalizing doc other with
  | not inner ih =>
    have hinner : Kept "condition" (ConditionOf inner) := kept_part (by decide) fun _ _ => ih
    exact isNode_of_agree hagree rfl (by simp [hinner]) h
  | and lhs rhs ihl ihr | or lhs rhs ihl ihr =>
    have hlhs : Kept "lhs" (ConditionOf lhs) := kept_part (by decide) fun _ _ => ihl
    have hrhs : Kept "rhs" (ConditionOf rhs) := kept_part (by decide) fun _ _ => ihr
    exact isNode_of_agree hagree rfl (by simp [hlhs, hrhs]) h
  | equal lhs rhs | greater lhs rhs =>
    have hlhs : Kept "lhs" (TermOf lhs) := kept_part (by decide) fun _ _ => termOf_of_agree
    have hrhs : Kept "rhs" (TermOf rhs) := kept_part (by decide) fun _ _ => termOf_of_agree
    exact isNode_of_agree hagree rfl (by simp [hlhs, hrhs]) h

mutual

theorem ruleOf_of_agree (r : Rule String) {doc other : Json} (hagree : NodesAgree doc other)
    (h : RuleOf r doc) : RuleOf r other := by
  cases r with
  | always decision => exact isNode_of_agree hagree rfl (by simp [kept_text]) h
  | never => exact isNode_of_agree hagree rfl (by simp [kept_decision]) h
  | when condition decision =>
    have hcondition : Kept "condition" (ConditionOf condition) :=
      kept_part (by decide) fun _ _ => conditionOf_of_agree
    exact isNode_of_agree hagree rfl (by simp [kept_text, hcondition]) h
  | branch condition onTrue onFalse =>
    have hcondition : Kept "condition" (ConditionOf condition) :=
      kept_part (by decide) fun _ _ => conditionOf_of_agree
    have htrue : Kept "true" (RuleOf onTrue) :=
      kept_part (by decide) fun _ _ => ruleOf_of_agree onTrue
    have hfalse : Kept "false" (RuleOf onFalse) :=
      kept_part (by decide) fun _ _ => ruleOf_of_agree onFalse
    exact isNode_of_agree hagree rfl (by simp [hcondition, htrue, hfalse]) h
  | majority decision rules | all decision rules | any decision rules =>
    have hrules : Kept "rules" (RulesOf rules) :=
      kept_part (by decide) fun _ _ => rulesOf_of_agree rules
    exact isNode_of_agree hagree rfl (by simp [kept_text, hrules]) h
  | oneOf rules =>
    have hrules : Kept "rules" (RulesOf rules) :=
      kept_part (by decide) fun _ _ => rulesOf_of_agree rules
    exact isNode_of_agree hagree rfl (by simp [hrules]) h

theorem rulesOf_of_agree (rs : List (Rule String)) {doc other : Json}
    (hagree : NodesAgree doc other) (h : RulesOf rs doc) : RulesOf rs other := by
  cases rs with
  | nil =>
    cases h
    obtain ⟨others, rfl, hitems⟩ := (same_array_iff [] other).mp hagree
    cases hitems
    rfl
  | cons r rs =>
    obtain ⟨x, xs, rfl, hx, hxs⟩ := h
    obtain ⟨others, rfl, hitems⟩ := (same_array_iff (x :: xs) other).mp hagree
    obtain ⟨y, ys, hxy, hrest, rfl⟩ := List.forall₂_cons_left_iff.mp hitems
    have hagree : NodesAgree (.array xs) (.array ys) := (same_array_iff xs _).mpr ⟨ys, rfl, hrest⟩
    exact ⟨y, ys, rfl, ruleOf_of_agree r hxy hx, rulesOf_of_agree rs hagree hxs⟩

end

theorem hasAll_of_agreeOn {record : List (String × (Json → Json → Prop))}
    {members others : List (String × Json)}
    (hagree : ∀ field ∈ record,
      Option.Rel field.2 (Json.get? field.1 members) (Json.get? field.1 others))
    {fields : List (String × (Json → Prop))}
    (hkept : List.Forall₂ (fun field entry => field.1 = entry.1 ∧
      ∀ x y, entry.2 x y → field.2 x → field.2 y) fields record)
    (h : HasAll fields members) : HasAll fields others := by
  induction hkept with
  | nil => trivial
  | @cons field entry fields record hfirst _ ih =>
    obtain ⟨name, P⟩ := field
    obtain ⟨hname, hfirst⟩ := hfirst
    obtain ⟨hrel, hagree⟩ := List.forall_mem_cons.mp hagree
    obtain ⟨⟨x, hx, hP⟩, hrest⟩ := h
    rw [← hname, hx] at hrel
    generalize hy : Json.get? name others = found at hrel
    cases hrel with
    | some hxy => exact ⟨⟨_, hy, hfirst x _ hxy hP⟩, ih hagree hrest⟩

theorem attributeOf_of_agree {a : Attribute String} {doc other : Json}
    (hagree : AttributesAgree doc other) (h : AttributeOf a doc) : AttributeOf a other := by
  obtain ⟨members, others, rfl, rfl, hagree⟩ := hagree
  obtain ⟨_, heq, hfields⟩ := h
  cases heq
  refine ⟨others, rfl, hasAll_of_agreeOn hagree ?_ hfields⟩
  refine .cons ⟨rfl, ?_⟩ (.cons ⟨rfl, fun _ _ => termOf_of_agree⟩ .nil)
  rintro x _ rfl hx
  exact hx

theorem attributesOf_of_agree (as : List (Attribute String)) {doc other : Json}
    (hagree : ItemsAgree AttributesAgree doc other) (h : AttributesOf as doc) :
    AttributesOf as other := by
  induction as generalizing doc other with
  | nil =>
    cases h
    obtain ⟨_, others, heq, rfl, hitems⟩ := hagree
    cases heq
    cases hitems
    rfl
  | cons a as ih =>
    obtain ⟨x, xs, rfl, hx, hxs⟩ := h
    obtain ⟨_, others, heq, rfl, hitems⟩ := hagree
    cases heq
    obtain ⟨y, ys, hxy, hrest, rfl⟩ := List.forall₂_cons_left_iff.mp hitems
    exact ⟨y, ys, rfl, attributeOf_of_agree hxy hx, ih ⟨xs, ys, rfl, rfl, hrest⟩ hxs⟩

/-- Neither members that the schema does not have nor the order of members has a part in what is
read. -/
theorem readRuleSet_of_agree {doc other : Json} {set : RuleSet String} (hagree : Agree doc other)
    (h : readRuleSet doc = .ok set) : readRuleSet other = .ok set := by
  rw [readRuleSet_eq_ok_iff] at h ⊢
  obtain ⟨members, others, rfl, rfl, hagree⟩ := hagree
  obtain ⟨_, heq, hfields⟩ := h
  cases heq
  refine ⟨others, rfl, hasAll_of_agreeOn hagree ?_ hfields⟩
  refine .cons ⟨rfl, fun _ _ => attributesOf_of_agree _⟩ (.cons ⟨rfl, ?_⟩ .nil)
  rintro _ _ ⟨items, others, rfl, rfl, hitems⟩
  exact rulesOf_of_agree _ ((same_array_iff items _).mpr ⟨others, rfl, hitems⟩)

/-! ## Writing what was written

A rule set and its normal form have one document. -/

theorem writeParams_collect (params : List (String × String)) :
    writeParams (Json.collect params) = writeParams params := by
  rw [writeParams, writeParams, Json.collect_map, Json.collect_map,
    Json.collect_of_nodup (Json.nodup_collect params)]

theorem writeTerm_norm (t : Term String) : writeTerm t.norm = writeTerm t := by
  induction t with
  | string text | number n | attr ref | request key => rfl
  | coerce operand kind ih => rw [Term.norm, writeTerm, ih, writeTerm]
  | binary op lhs rhs ihl ihr => rw [Term.norm, writeTerm, ihl, ihr, writeTerm]
  | rest url method params => rw [Term.norm, writeTerm, writeParams_collect, writeTerm]

theorem writeCondition_norm (c : Condition String) : writeCondition c.norm = writeCondition c := by
  induction c with
  | not inner ih => rw [Condition.norm, writeCondition, ih, writeCondition]
  | and lhs rhs ihl ihr | or lhs rhs ihl ihr =>
    rw [Condition.norm, writeCondition, ihl, ihr, writeCondition]
  | equal lhs rhs | greater lhs rhs =>
    rw [Condition.norm, writeCondition, writeTerm_norm, writeTerm_norm, writeCondition]

mutual

theorem writeRule_norm (r : Rule String) : writeRule r.norm = writeRule r := by
  cases r with
  | always decision | never => rfl
  | when condition decision => rw [Rule.norm, writeRule, writeCondition_norm, writeRule]
  | branch condition onTrue onFalse =>
    rw [Rule.norm, writeRule, writeCondition_norm, writeRule_norm onTrue, writeRule_norm onFalse,
      writeRule]
  | majority decision rules | all decision rules | any decision rules | oneOf rules =>
    rw [Rule.norm, writeRule, writeRules_norm rules, writeRule]

theorem writeRules_norm (rs : List (Rule String)) :
    writeRules (Rule.normMembers rs) = writeRules rs := by
  cases rs with
  | nil => rfl
  | cons r rs => rw [Rule.normMembers, writeRules, writeRule_norm r, writeRules_norm rs, writeRules]

end

theorem writeRuleSet_norm (set : RuleSet String) : writeRuleSet set.norm = writeRuleSet set := by
  have hattributes : (set.attributes.map (·.norm)).map writeAttribute =
      set.attributes.map writeAttribute := by
    rw [List.map_map]
    refine List.map_congr_left fun a _ => ?_
    show writeAttribute a.norm = writeAttribute a
    rw [writeAttribute, Attribute.norm, writeTerm_norm, writeAttribute]
  rw [RuleSet.norm, writeRuleSet, hattributes, writeRules_norm, writeRuleSet]

/-! ## Writing undoes reading -/

/-- A document that conforms to the schema is written again as it was, but for the order of
members that are no parameters and for the decisions of rules that never apply. Of any document,
what is read depends on the members alone that the schema has where they stand, and on their
order for parameters only. What is written is read as what is written the same. -/
theorem writing_undoes_reading (doc : Json) (set : RuleSet String)
    (hread : readRuleSet doc = .ok set) :
    (doc.Distinct → check doc = [] → Alike (writeRuleSet set) (undecide doc)) ∧
      (∀ other, Agree doc other → readRuleSet other = .ok set) ∧
      ∃ again, readRuleSet (writeRuleSet set) = .ok again ∧
        writeRuleSet again = writeRuleSet set := by
  refine ⟨fun hdistinct hcheck => ?_, fun other hagree => readRuleSet_of_agree hagree hread, ?_⟩
  · exact alike_writeRuleSet ((check_eq_nil_iff hdistinct).mp hcheck) hdistinct hread
  · exact ⟨set.norm, readRuleSet_writeRuleSet set, writeRuleSet_norm set⟩

/-- A call whose members stand in no usual order. -/
def callMembers : List (String × Json) :=
  [("params", .object [("of", .string "rank"), ("at", .string "rank")]),
    ("url", .string "http://ranks"), ("type", .string "rest"), ("method", .string "PUT")]

/-- A document of a call and of a rule that never applies, which has more members. -/
def callDocument (call extra : List (String × Json)) : Json :=
  .object [
    ("rules", .array [.object ([("decision", .string "Deny"), ("type", .string "never")] ++ extra)]),
    ("attributes", .array [.object [("value", .object call), ("name", .string "rank")]])]

/-- The rule set of such a document. -/
def callAlone : RuleSet String :=
  ⟨[⟨"rank", .rest "http://ranks" .put [("of", "rank"), ("at", "rank")]⟩], [.never]⟩

theorem readRuleSet_callDocument : readRuleSet (callDocument callMembers []) = .ok callAlone := by
  rw [readRuleSet_eq_ok_iff]
  refine ⟨_, rfl, ⟨_, rfl, _, _, rfl, ?_, rfl⟩, ⟨_, rfl, _, _, rfl, ?_, rfl⟩, trivial⟩
  · exact ⟨_, rfl, ⟨_, rfl, rfl⟩, ⟨_, rfl, _, rfl, ⟨_, rfl, rfl⟩, ⟨_, rfl, rfl⟩, ⟨_, rfl, rfl⟩,
      ⟨_, rfl, rfl⟩, trivial⟩, trivial⟩
  · exact ⟨_, rfl, ⟨_, rfl, rfl⟩, ⟨_, rfl, .deny, rfl⟩, trivial⟩

theorem agree_callDocument (x : Json) :
    Agree (callDocument callMembers []) (callDocument callMembers.reverse [("note", x)]) := by
  have hcall : NodesAgree (.object callMembers) (.object callMembers.reverse) :=
    nodesAgree_of_perm (by decide) (List.reverse_perm callMembers).symm
  have hrule : NodesAgree (.object [("decision", .string "Deny"), ("type", .string "never")])
      (.object ([("decision", .string "Deny"), ("type", .string "never")] ++ [("note", x)])) := by
    refine nodesAgree_append _ (List.forall_mem_singleton.mpr ?_)
    rintro (hname | ⟨kind, hkind, hname⟩)
    · exact absurd hname (by simp)
    · cases hkind
      have hknown : "note" ∉ namesOf "never" := by decide
      exact hknown hname
  refine ⟨_, _, rfl, rfl, List.forall_mem_cons.mpr ⟨?_, List.forall_mem_singleton.mpr ?_⟩⟩
  · refine .some ⟨_, _, rfl, rfl, .cons ⟨_, _, rfl, rfl, ?_⟩ .nil⟩
    exact List.forall_mem_cons.mpr ⟨.some rfl, List.forall_mem_singleton.mpr (.some hcall)⟩
  · exact .some ⟨_, _, rfl, rfl, .cons hrule .nil⟩

theorem callDocument_written_again :
    Alike (writeRuleSet callAlone) (undecide (callDocument callMembers [])) ∧
      readRuleSet (callDocument callMembers.reverse [("note", .null)]) = .ok callAlone := by
  obtain ⟨hwritten, hagree, -⟩ := writing_undoes_reading _ _ readRuleSet_callDocument
  have hdistinct : (callDocument callMembers []).Distinct := by
    simp [callDocument, callMembers, Json.Distinct, Json.DistinctItems, Json.DistinctMembers]
  exact ⟨hwritten hdistinct (by decide +kernel), hagree _ (agree_callDocument .null)⟩

end Policy.Document
