import Policy.Proofs.Document.Demands
import Policy.Proofs.Document.Described

namespace Policy.Document

open Schema (Family)

variable {α β : Type} {ds more : List Demand} {d : Demand} {p : Problem} {found : Except Problem α}

/-! ## Demands that are met -/

/-- Nothing is wrong with the value. -/
def Demand.Met (d : Demand) : Prop := ∀ p, ¬ Defect d p

/-- The problem is that of the first demand that is not met. -/
def FirstDefect (ds : List Demand) (p : Problem) : Prop :=
  ∃ before d after, ds = before ++ d :: after ∧ (∀ b ∈ before, b.Met) ∧ Defect d p

/-- A value has at most one defect. -/
theorem Defect.unique {q : Problem} (hp : Defect d p) (hq : Defect d q) : p = q := by
  cases hp with
  | unknownNode htype h =>
    cases hq with
    | unknownNode htype' h' =>
      cases htype.symm.trans htype'
      rfl
  | _ =>
    cases hq
    rfl

theorem firstDefect_cons_iff :
    FirstDefect (d :: ds) p ↔ Defect d p ∨ d.Met ∧ FirstDefect ds p := by
  constructor
  · rintro ⟨before, d', after, hds, hbefore, hd⟩
    cases before with
    | nil =>
      cases hds
      exact .inl hd
    | cons b before =>
      cases hds
      obtain ⟨hb, hbefore⟩ := List.forall_mem_cons.mp hbefore
      exact .inr ⟨hb, before, d', after, rfl, hbefore, hd⟩
  · rintro (hd | ⟨hmet, before, d', after, rfl, hbefore, hd⟩)
    · exact ⟨[], d, ds, rfl, List.forall_mem_nil _, hd⟩
    · exact ⟨d :: before, d', after, rfl, List.forall_mem_cons.mpr ⟨hmet, hbefore⟩, hd⟩

theorem FirstDefect.append (h : FirstDefect ds p) : FirstDefect (ds ++ more) p := by
  obtain ⟨before, d, after, rfl, hbefore, hd⟩ := h
  exact ⟨before, d, after ++ more, List.append_assoc _ _ _, hbefore, hd⟩

theorem FirstDefect.unique {q : Problem} (hp : FirstDefect ds p) (hq : FirstDefect ds q) :
    p = q := by
  induction ds with
  | nil =>
    obtain ⟨before, d, after, hds, -⟩ := hp
    cases before <;> cases hds
  | cons d ds ih =>
    rcases firstDefect_cons_iff.mp hp with hp | ⟨hmet, hp⟩
    · rcases firstDefect_cons_iff.mp hq with hq | ⟨hmet, -⟩
      · exact hp.unique hq
      · exact absurd hp (hmet p)
    · rcases firstDefect_cons_iff.mp hq with hq | ⟨-, hq⟩
      · exact absurd hq (hmet q)
      · exact ih hp hq

/-! ### What readers fail with -/

/-- A reader fails with the problem of the first demand that is not met, and only then. -/
def Blames (ds : List Demand) : Except Problem α → Prop
  | .ok _ => ∀ d ∈ ds, d.Met
  | .error p => FirstDefect ds p

theorem Blames.error_iff (h : Blames ds found) : found = .error p ↔ FirstDefect ds p := by
  cases found with
  | error q =>
    constructor
    · intro heq
      cases heq
      exact h
    · intro hp
      rw [FirstDefect.unique h hp]
  | ok a =>
    constructor
    · intro heq
      cases heq
    · rintro ⟨before, d, after, rfl, -, hd⟩
      exact absurd hd (h d (by simp) p)

theorem Blames.ok (a : α) : Blames [] (.ok a : Except Problem α) := List.forall_mem_nil _

theorem Blames.unmet (h : Defect d p) : Blames (d :: ds) (.error p : Except Problem α) :=
  firstDefect_cons_iff.mpr (.inl h)

theorem Blames.met (hmet : d.Met) (h : Blames ds found) : Blames (d :: ds) found := by
  cases found with
  | error p => exact firstDefect_cons_iff.mpr (.inr ⟨hmet, h⟩)
  | ok a => exact List.forall_mem_cons.mpr ⟨hmet, h⟩

theorem Blames.bind {first : Except Problem α} {next : α → Except Problem β}
    (hfirst : Blames ds first) (hnext : ∀ a, Blames more (next a)) :
    Blames (ds ++ more) (first >>= next) := by
  cases first with
  | error p => exact FirstDefect.append hfirst
  | ok a =>
    induction ds with
    | nil => exact hnext a
    | cons d ds ih =>
      obtain ⟨hd, hds⟩ := List.forall_mem_cons.mp hfirst
      exact .met hd (ih hds)

/-- A last step that cannot fail. -/
theorem Blames.map {f : α → β} (h : Blames ds found) : Blames ds (do pure (f (← found))) := by
  have hbind := h.bind fun a => Blames.ok (f a)
  rwa [List.append_nil] at hbind

section Members

variable {path : Path} {members : List (String × Json)} {name : String} {content : Content}
  {form : Form}

theorem partDemands_eq {x : Json} (h : Json.get? name members = some x) :
    partDemands path members name content = demands (path.field name) x content := by
  induction members with
  | nil => cases h
  | cons m members ih =>
    obtain ⟨k, y⟩ := m
    rw [Json.get?] at h
    rw [partDemands]
    split at h
    · next hk =>
      cases h
      rw [if_pos hk, hk]
    · next hk => rw [if_neg hk, ih h]

theorem met_is {x : Json} {wanted : Wanted} (h : wanted.Holds x) :
    Demand.Met ⟨path, x, .is wanted⟩ := by
  intro p hp
  cases hp with
  | shape hx => exact hx h

theorem met_member {x : Json} (h : Json.get? name members = some x) :
    Demand.Met ⟨path, .object members, .member name⟩ := by
  intro p hp
  cases hp with
  | missing hname =>
    rw [Json.get_eq_none_iff.mpr hname] at h
    cases h

theorem required_eq_error (h : Json.get? name members = none) :
    required path name (.object members) = .error (.missing path name) := by
  simp only [required]
  split
  · next x hx =>
    rw [h] at hx
    cases hx
  · rfl

/-- A value that is not of the type that its content wants. -/
theorem firstDefect_shape {x : Json} {wanted : Wanted} {wants : List Want}
    (hwants : content.wants = .is wanted :: wants) (hx : ¬ wanted.Holds x) :
    FirstDefect (demands path x content) (.shape path wanted) := by
  have hdemands : ∃ rest, demands path x content = ⟨path, x, .is wanted⟩ :: rest := by
    cases x with
    | _ =>
      simp only [demands, hwants, List.map_cons, List.cons_append]
      exact ⟨_, rfl⟩
  obtain ⟨rest, hrest⟩ := hdemands
  rw [hrest]
  exact firstDefect_cons_iff.mpr (.inl (.shape hx))

theorem Blames.shape {x : Json} {wanted : Wanted} {wants : List Want}
    (hwants : content.wants = .is wanted :: wants) (hx : ¬ wanted.Holds x) :
    Blames (demands path x content ++ more) (.error (.shape path wanted) : Except Problem α) :=
  (firstDefect_shape hwants hx).append

theorem demands_string (path : Path) (text : String) (content : Content) :
    demands path (.string text) content = content.wants.map (⟨path, .string text, ·⟩) := rfl

/-- What is demanded of one member of an object. -/
abbrev fieldOn (path : Path) (members : List (String × Json)) : String → Content → List Demand :=
  fieldDemands path members (partDemands path members)

abbrev formOn (path : Path) (members : List (String × Json)) : Form → List Demand :=
  formDemands path members (partDemands path members)

/-- A member has to be there, and then what is read from it counts. -/
theorem Blames.required
    {next : { x : Json // sizeOf x < sizeOf (Json.object members) } → Except Problem α}
    (h : ∀ x hx, Json.get? name members = some x →
      Blames (demands (path.field name) x content ++ more) (next ⟨x, hx⟩)) :
    Blames (fieldOn path members name content ++ more)
      (required path name (.object members) >>= next) := by
  cases hget : Json.get? name members with
  | none =>
    rw [required_eq_error hget]
    exact .unmet (.missing (Json.get_eq_none_iff.mp hget))
  | some x =>
    rw [required_eq hget, fieldOn, fieldDemands, partDemands_eq hget]
    exact .met (met_member hget) (h x _ hget)

/-- A member that holds a text, on which more may be wanted of the text and what is read next may
depend. -/
theorem Blames.textWith {wants : List Want} {next : String → Except Problem α}
    (hwants : content.wants = .is .string :: wants)
    (h : ∀ text, Json.get? name members = some (.string text) →
      Blames (wants.map (⟨path.field name, .string text, ·⟩) ++ more) (next text)) :
    Blames (fieldOn path members name content ++ more)
      (requiredText path name (.object members) >>= next) := by
  rw [requiredText, bind_assoc]
  refine .required fun x _ hget => ?_
  cases x with
  | string text =>
    rw [demands_string, hwants]
    exact .met (met_is ⟨text, rfl⟩) (h text hget)
  | _ =>
    refine .shape hwants ?_
    rintro ⟨text, heq⟩
    cases heq

theorem Blames.text {next : String → Except Problem α}
    (h : ∀ text, Json.get? name members = some (.string text) → Blames more (next text)) :
    Blames (fieldOn path members name .text ++ more)
      (requiredText path name (.object members) >>= next) :=
  .textWith rfl h

/-- A member that names something. -/
theorem Blames.named {ofName? : String → Option α} {nameOf : α → String}
    {unknown : Path → String → Problem} {want : Want}
    (hwants : content.wants = [.is .string, want])
    (hname : ∀ a, ofName? (nameOf a) = some a)
    (hof : ∀ {text a}, ofName? text = some a → text = nameOf a)
    (hunknown : ∀ path text p, Defect ⟨path, .string text, want⟩ p → ∀ a, nameOf a ≠ text)
    (hdefect : ∀ path text, (∀ a, nameOf a ≠ text) →
      Defect ⟨path, .string text, want⟩ (unknown path text)) :
    Blames (fieldOn path members name content)
      (requiredName ofName? unknown path name (.object members)) := by
  rw [← List.append_nil (fieldOn path members name content), requiredName]
  refine .textWith hwants fun text _ => ?_
  cases ha : ofName? text with
  | none =>
    refine .unmet (hdefect _ _ fun a heq => ?_)
    rw [← heq, hname] at ha
    cases ha
  | some a => exact .met (fun p hp => hunknown _ _ p hp a (hof ha).symm) (.ok a)

theorem Blames.method : Blames (fieldOn path members name .method)
    (requiredName Method.ofName? .unknownMethod path name (.object members)) := by
  refine .named rfl Method.ofName_name Method.name_of_ofName (fun path text p hp => ?_)
    fun _ _ => .unknownMethod
  cases hp with
  | unknownMethod h => exact h

theorem Blames.kind : Blames (fieldOn path members name .kind)
    (requiredName Kind.ofName? .unknownKind path name (.object members)) := by
  refine .named rfl Kind.ofName_name Kind.name_of_ofName (fun path text p hp => ?_)
    fun _ _ => .unknownKind
  cases hp with
  | unknownKind h => exact h

theorem Blames.decision : Blames (fieldOn path members "decision" .decision)
    (requiredDecision path (.object members)) := by
  refine .named rfl Decision.ofName_name Decision.name_of_ofName (fun path text p hp => ?_)
    fun _ _ => .unknownDecision
  cases hp with
  | unknownDecision h => exact h

theorem Blames.integer : Blames (fieldOn path members name .integer)
    (requiredNumber path name (.object members)) := by
  rw [← List.append_nil (fieldOn path members name .integer), requiredNumber]
  refine .required fun x _ _ => ?_
  have hshape (h : ∀ n : Policy.Number, x ≠ .number (.whole n.val)) :
      Blames (demands (path.field name) x .integer ++ [])
        (.error (.shape (path.field name) .integer) : Except Problem Policy.Number) :=
    .shape rfl (not_exists.mpr h)
  cases x with
  | number n =>
    cases n with
    | whole i =>
      dsimp only
      cases hn : Number.ofInt? i with
      | none =>
        refine hshape fun n heq => ?_
        cases heq
        cases (Number.ofInt_eq_some_iff.mpr rfl).symm.trans hn
      | some n =>
        rw [← Number.ofInt_eq_some_iff.mp hn]
        exact .met (met_is ⟨n, rfl⟩) (.ok n)
    | float f => exact hshape fun n heq => by cases heq
  | _ => exact hshape fun n heq => by cases heq

theorem blames_readParams (params : List (String × Json)) :
    Blames (params.map fun m => ⟨path.field m.1, m.2, .is .attributeName⟩)
      (readParams path params) := by
  induction params with
  | nil => exact .ok []
  | cons m params ih =>
    obtain ⟨name, x⟩ := m
    rw [List.map_cons]
    cases x with
    | string ref =>
      rw [readParams]
      exact .met (met_is ⟨ref, rfl⟩) ih.map
    | _ =>
      refine .unmet (.shape ?_)
      rintro ⟨text, heq⟩
      cases heq

theorem Blames.params : Blames (fieldOn path members "params" .params)
    (requiredParams path (.object members)) := by
  rw [← List.append_nil (fieldOn path members "params" .params), requiredParams]
  refine .required fun x _ _ => ?_
  cases x with
  | object params =>
    rw [List.append_nil]
    exact .met (met_is ⟨params, rfl⟩) (blames_readParams params)
  | _ =>
    refine .shape rfl ?_
    rintro ⟨members, heq⟩
    cases heq

/-- A member that holds an array, from whose items something is read. -/
theorem Blames.items {item : Content}
    {next : { xs : List Json // sizeOf xs < sizeOf (Json.object members) } → Except Problem α}
    (h : ∀ xs hxs, Json.get? name members = some (.array xs) →
      Blames (itemDemands (path.field name) 0 xs item ++ more) (next ⟨xs, hxs⟩)) :
    Blames (fieldOn path members name (.list item) ++ more)
      (requiredItems path name (.object members) >>= next) := by
  rw [requiredItems, bind_assoc]
  refine .required fun x _ hget => ?_
  cases x with
  | array items => exact .met (met_is ⟨items, rfl⟩) (h items _ hget)
  | _ =>
    refine .shape rfl ?_
    rintro ⟨items, heq⟩
    cases heq

/-- The kind of a node is known, and the members of that kind are read. -/
theorem Blames.ofKind {family : Family} {kind : String} {form : Form}
    (htype : Json.get? "type" members = some (.string kind))
    (hkind : Json.get? kind (kindsOf family) = some form)
    (h : Blames (formOn path members form) found) :
    Blames (⟨path, .object members, .kind family⟩ ::
      formOn path members (formOf family members)) found := by
  have hform : formOf family members = form := by
    rw [formOf, htype]
    simp only [hkind, Option.getD_some]
  rw [hform]
  refine .met (fun p hp => ?_) h
  cases hp with
  | unknownNode htype' hunknown =>
    cases htype.symm.trans htype'
    rw [Json.get_eq_none_iff.mpr hunknown] at hkind
    cases hkind

theorem Blames.ofUnknown {family : Family} {kind : String}
    (htype : Json.get? "type" members = some (.string kind))
    (hkind : ∀ known ∈ (kindsOf family).map Prod.fst, kind ≠ known) :
    Blames (⟨path, .object members, .kind family⟩ :: more)
      (.error (.unknownNode path kind) : Except Problem α) :=
  .unmet (.unknownNode htype fun hmem => hkind kind hmem rfl)

end Members

/-! ## The readers of nodes -/

/-- A node is an object whose type tells which members are read from it. -/
theorem Blames.node {path : Path} {doc : Json} {family : Family} {next : String → Except Problem α}
    (h : ∀ members kind, doc = .object members → Json.get? "type" members = some (.string kind) →
      Blames (⟨path, .object members, .kind family⟩ ::
        formOn path members (formOf family members)) (next kind)) :
    Blames (demands path doc (.node family)) (requiredText path "type" doc >>= next) := by
  cases doc with
  | object members =>
    have htype : Blames (fieldOn path members "type" .text ++
        ⟨path, .object members, .kind family⟩ :: formOn path members (formOf family members))
        (requiredText path "type" (.object members) >>= next) :=
      .text fun kind => h members kind rfl
    exact .met (met_is ⟨members, rfl⟩) htype
  | _ =>
    refine firstDefect_shape rfl ?_
    rintro ⟨members, heq⟩
    cases heq

theorem get_kindsOf_operator (op : Operator) :
    Json.get? op.name (kindsOf .term) = some [("lhs", .node .term), ("rhs", .node .term)] := by
  cases op <;> rfl

theorem blames_readTerm (path : Path) (doc : Json) :
    Blames (demands path doc (.node .term)) (readTerm path doc) := by
  rw [readTerm]
  apply Blames.node
  intro members kind hdoc htype
  subst hdoc
  split
  · apply Blames.ofKind htype rfl
    exact .text fun text _ => .ok _
  · apply Blames.ofKind htype rfl
    exact .bind .integer fun n => .ok _
  · apply Blames.ofKind htype rfl
    exact .text fun ref _ => .ok _
  · apply Blames.ofKind htype rfl
    exact .text fun key _ => .ok _
  · apply Blames.ofKind htype rfl
    apply Blames.text
    intro url _
    apply Blames.bind Blames.method
    intro method
    exact .bind .params fun params => .ok _
  · apply Blames.ofKind htype rfl
    apply Blames.required
    intro x hx _
    apply Blames.bind (blames_readTerm _ x)
    intro operand
    exact .bind .kind fun target => .ok _
  · next _ hstring hnumber hattribute hrequest hrest hcoerce =>
    split
    · next op hop =>
      rw [Operator.name_of_ofName hop] at htype
      apply Blames.ofKind htype (get_kindsOf_operator op)
      apply Blames.required
      intro x hx _
      apply Blames.bind (blames_readTerm _ x)
      intro lhs
      apply Blames.required
      intro y hy _
      exact .bind (blames_readTerm _ y) fun rhs => .ok _
    · next hop =>
      have hoperators : ∀ known ∈ Schema.operators, kind ≠ known := by
        intro known hknown heq
        obtain ⟨op, rfl⟩ := exists_operator hknown
        subst heq
        cases op.ofName_name.symm.trans hop
      apply Blames.ofUnknown htype
      simp only [kindsOf, List.map_append, List.map_cons, List.map_nil, List.map_map,
        List.forall_mem_append, List.forall_mem_cons]
      exact ⟨⟨hstring, hnumber, hattribute, hrequest, hrest, hcoerce, List.forall_mem_nil _⟩,
        by simpa using hoperators⟩
termination_by sizeOf doc

theorem blames_readTerms {path : Path} {members : List (String × Json)} :
    Blames (formOn path members [("lhs", .node .term), ("rhs", .node .term)])
      (readTerms path (.object members)) := by
  apply Blames.required
  intro x _ _
  apply Blames.bind (blames_readTerm _ x)
  intro lhs
  apply Blames.required
  intro y _ _
  exact .bind (blames_readTerm _ y) fun rhs => .ok _

theorem blames_readCondition (path : Path) (doc : Json) :
    Blames (demands path doc (.node .condition)) (readCondition path doc) := by
  rw [readCondition]
  apply Blames.node
  intro members kind hdoc htype
  subst hdoc
  -- Where two conditions are joined, the second one is read once the first one is.
  have hboth (join : Condition String → Condition String → Condition String) :
      Blames (formOn path members [("lhs", .node .condition), ("rhs", .node .condition)]) (do
        let lhs ← required path "lhs" (.object members)
        let left ← readCondition (path.field "lhs") lhs.val
        let rhs ← required path "rhs" (.object members)
        let right ← readCondition (path.field "rhs") rhs.val
        pure (join left right)) := by
    apply Blames.required
    intro x hx _
    apply Blames.bind (blames_readCondition _ x)
    intro lhs
    apply Blames.required
    intro y hy _
    exact .bind (blames_readCondition _ y) fun rhs => .ok _
  split
  · apply Blames.ofKind htype rfl
    apply Blames.required
    intro x hx _
    exact .bind (blames_readCondition _ x) fun inner => .ok _
  · exact .ofKind htype rfl (hboth .and)
  · exact .ofKind htype rfl (hboth .or)
  · exact .ofKind htype rfl blames_readTerms.map
  · exact .ofKind htype rfl blames_readTerms.map
  · next _ hnot hand hor hequal hgreater =>
    apply Blames.ofUnknown htype
    simp only [kindsOf, List.map_cons, List.map_nil, List.forall_mem_cons]
    exact ⟨hnot, hand, hor, hequal, hgreater, List.forall_mem_nil _⟩
termination_by sizeOf doc

mutual

theorem blames_readRule (path : Path) (doc : Json) :
    Blames (demands path doc (.node .rule)) (readRule path doc) := by
  rw [readRule]
  apply Blames.node
  intro members kind hdoc htype
  subst hdoc
  have hgroup (group : List (Rule String) → Rule String) :
      Blames (formOn path members [("rules", .list (.node .rule))]) (do
        let items ← requiredItems path "rules" (.object members)
        let rules ← readRules (path.field "rules") 0 items.val
        pure (group rules)) := by
    apply Blames.items
    intro xs hxs _
    exact .bind (blames_readRules _ 0 xs) fun rules => .ok _
  split
  · apply Blames.ofKind htype rfl
    exact .bind .decision fun decision => .ok _
  · apply Blames.ofKind htype rfl
    exact .bind .decision fun decision => .ok _
  · apply Blames.ofKind htype rfl
    apply Blames.required
    intro x hx _
    apply Blames.bind (blames_readCondition _ x)
    intro condition
    exact .bind .decision fun decision => .ok _
  · apply Blames.ofKind htype rfl
    apply Blames.required
    intro x hx _
    apply Blames.bind (blames_readCondition _ x)
    intro condition
    apply Blames.required
    intro y hy _
    apply Blames.bind (blames_readRule _ y)
    intro onTrue
    apply Blames.required
    intro z hz _
    exact .bind (blames_readRule _ z) fun onFalse => .ok _
  · apply Blames.ofKind htype rfl
    exact .bind .decision fun decision => hgroup (.majority decision)
  · apply Blames.ofKind htype rfl
    exact .bind .decision fun decision => hgroup (.all decision)
  · apply Blames.ofKind htype rfl
    exact .bind .decision fun decision => hgroup (.any decision)
  · exact .ofKind htype rfl (hgroup .oneOf)
  · next _ halways hnever hwhen hbranch hmajority hall hany hone =>
    apply Blames.ofUnknown htype
    simp only [kindsOf, List.map_cons, List.map_nil, List.forall_mem_cons]
    exact ⟨halways, hnever, hwhen, hbranch, hmajority, hall, hany, hone, List.forall_mem_nil _⟩
termination_by sizeOf doc

theorem blames_readRules (path : Path) (index : Nat) (docs : List Json) :
    Blames (itemDemands path index docs (.node .rule)) (readRules path index docs) := by
  cases docs with
  | nil =>
    rw [readRules]
    exact .ok []
  | cons doc docs =>
    rw [readRules]
    apply Blames.bind (blames_readRule _ doc)
    intro rule
    exact (blames_readRules path (index + 1) docs).map
termination_by sizeOf docs

end

theorem blames_readAttribute (path : Path) (doc : Json) :
    Blames (demands path doc .attribute) (readAttribute path doc) := by
  rw [readAttribute]
  cases doc with
  | object members =>
    refine Blames.met (met_is ⟨members, rfl⟩) ?_
    apply Blames.text
    intro name _
    apply Blames.required
    intro x _ _
    exact .bind (blames_readTerm _ x) fun value => .ok _
  | _ =>
    apply firstDefect_shape rfl
    rintro ⟨members, heq⟩
    cases heq

theorem blames_readAttributes (path : Path) (index : Nat) (docs : List Json) :
    Blames (itemDemands path index docs .attribute) (readAttributes path index docs) := by
  induction docs generalizing index with
  | nil => exact .ok []
  | cons doc docs ih =>
    rw [readAttributes]
    apply Blames.bind (blames_readAttribute _ doc)
    intro a
    exact (ih (index + 1)).map

theorem blames_readRuleSet (doc : Json) :
    Blames (demands .start doc .ruleSet) (readRuleSet doc) := by
  rw [readRuleSet]
  cases doc with
  | object members =>
    refine Blames.met (met_is ⟨members, rfl⟩) ?_
    apply Blames.items
    intro xs _ _
    apply Blames.bind (blames_readAttributes _ 0 xs)
    intro attributes
    apply Blames.items
    intro ys _ _
    exact .bind (blames_readRules _ 0 ys) fun rules => .ok _
  | _ =>
    apply firstDefect_shape rfl
    rintro ⟨members, heq⟩
    cases heq

/-! ## The offender of a document -/

/-- The problem is that of a value of the document, at the place that the problem names. Nothing
that is checked before that value has a defect. Where no object repeats a name, the place has no
other value. -/
def Offender (path : Path) (doc : Json) (content : Content) (p : Problem) : Prop :=
  ∃ before d after steps, demands path doc content = before ++ d :: after ∧
    (∀ b ∈ before, b.Met) ∧ Defect d p ∧ d.path = path.extend steps ∧ Leads doc steps d.value ∧
    (doc.Distinct → ∀ x, Leads doc steps x → x = d.value)

theorem firstDefect_iff_offender {path : Path} {doc : Json} {content : Content} :
    FirstDefect (demands path doc content) p ↔ Offender path doc content p := by
  constructor
  · rintro ⟨before, d, after, hds, hbefore, hd⟩
    have hmem : d ∈ demands path doc content := by
      rw [hds]
      exact List.mem_append_right before List.mem_cons_self
    obtain ⟨steps, hpath, hleads⟩ := demands_within doc content d hmem
    exact ⟨before, d, after, steps, hds, hbefore, hd, hpath, hleads,
      fun hdoc x hx => hx.unique hdoc hleads⟩
  · rintro ⟨before, d, after, steps, hds, hbefore, hd, -⟩
    exact ⟨before, d, after, hds, hbefore, hd⟩

/-- A document is refused for its first defect, in the order in which it is read, and the problem
names the place of that defect. -/
theorem refused_for_offender (doc : Json) (p : Problem) :
    (readRuleSet doc = .error p ↔ Offender .start doc .ruleSet p) ∧
    ∀ path, (readTerm path doc = .error p ↔ Offender path doc (.node .term) p) ∧
      (readCondition path doc = .error p ↔ Offender path doc (.node .condition) p) ∧
      (readRule path doc = .error p ↔ Offender path doc (.node .rule) p) := by
  simp only [← firstDefect_iff_offender]
  exact ⟨(blames_readRuleSet doc).error_iff, fun path => ⟨(blames_readTerm path doc).error_iff,
    (blames_readCondition path doc).error_iff, (blames_readRule path doc).error_iff⟩⟩

end Policy.Document
