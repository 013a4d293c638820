import Policy.Proofs.Evaluation.References
import Policy.Service.Script
import Mathlib.Data.Fintype.EquivFin
import Mathlib.Data.List.Perm.Subperm
import Mathlib.Order.WellFounded

namespace Policy

/-! ## Policies without cycles -/

namespace RuleSet

variable {set : RuleSet Slot} {t : Term Slot} {limit : Nat}

/-- No attribute refers to itself, at last. -/
def Acyclic (set : RuleSet Slot) : Prop :=
  ∀ slot, ¬ Relation.TransGen set.Refers slot slot

/-- No path of references goes through more attributes than the limit. -/
def Shallow (set : RuleSet Slot) (limit : Nat) : Prop :=
  ∀ t, ¬ set.Deep t limit

/-- References that only lead further down the list of attributes never lead back. -/
theorem acyclic_of_lt (h : ∀ slot next, set.Refers slot next → slot < next) : set.Acyclic := by
  have hpath : ∀ slot last, Relation.TransGen set.Refers slot last → slot < last := by
    intro slot last hlast
    induction hlast with
    | single hr => exact h _ _ hr
    | tail _ hr ih => exact ih.trans (h _ _ hr)
  exact fun slot hcycle => Nat.lt_irrefl slot (hpath slot slot hcycle)

theorem Trail.nodup (h : set.Acyclic) {trail : List Slot} (ht : set.Trail t trail) :
    trail.Nodup := by
  induction ht with
  | first _ => exact List.nodup_singleton _
  | @step slot next before hbefore hr ih =>
    refine List.nodup_cons.mpr ⟨fun hmem => ?_, ih⟩
    have hback := (Trail.step hbefore hr).transGen next hmem
    exact h next hback

/-- Without cycles no path goes through an attribute twice. -/
theorem Acyclic.shallow (h : set.Acyclic) (hle : set.attributes.length ≤ limit) :
    set.Shallow limit := by
  rintro t ⟨trail, htrail, hlong, hin⟩
  have hlength := length_le_of_nodup (htrail.nodup h) hin
  omega

/-- Among finitely many attributes, references that never lead back lead to an end. -/
theorem Acyclic.wellFounded (h : set.Acyclic) : WellFounded (flip set.Refers) := by
  let below (next slot : Fin set.attributes.length) : Prop :=
    Relation.TransGen set.Refers slot.val next.val
  have htrans : IsTrans (Fin set.attributes.length) below := ⟨fun _ _ _ hb ha => ha.trans hb⟩
  have hirrefl : Std.Irrefl below := ⟨fun slot hcycle => h slot.val hcycle⟩
  have hbelow : WellFounded below := Finite.wellFounded_of_trans_of_irrefl below
  have hin (slot : Fin set.attributes.length) : Acc (flip set.Refers) slot.val := by
    induction slot using hbelow.induction with
    | h slot ih =>
      refine .intro _ fun next hr => ?_
      by_cases hnext : next < set.attributes.length
      · exact ih ⟨next, hnext⟩ (.single hr)
      · exact .intro _ fun last hlast => absurd hlast.lt hnext
  refine ⟨fun slot => .intro _ fun next hr => ?_⟩
  by_cases hnext : next < set.attributes.length
  · exact hin ⟨next, hnext⟩
  · exact .intro _ fun last hlast => absurd hlast.lt hnext

end RuleSet

/-! ## The plain meaning of a policy

What terms, conditions and rules stand for, without explanations, chains and limits. A reference
means what the term of its attribute means, by recursion along the references. -/

namespace Evaluation

variable {σ α β γ : Type}

/-- Goes on with the value, if there is one. -/
def andThen (next : α → Run σ (Except Fault β)) : Except Fault α → Run σ (Except Fault β)
  | .ok a => next a
  | .error fault => pure (.error fault)

/-- Joins two meanings. Both are found out, and the fault of the left one comes first. -/
def both (f : α → β → Except Fault γ) (x : Run σ (Except Fault α)) (y : Run σ (Except Fault β)) :
    Run σ (Except Fault γ) := do
  let a ← x
  let b ← y
  pure (a >>= fun a => b >>= f a)

/-- The meanings of parameters, in order up to the first fault. -/
def meaningOfParams : (params : List (String × Slot)) →
    ((slot : Slot) → slot ∈ params.map Prod.snd → Run σ (Except Fault Value)) →
    Run σ (Except Fault (List (String × Value)))
  | [], _ => pure (.ok [])
  | (name, slot) :: params, ofSlot => do
    let v ← ofSlot slot List.mem_cons_self
    andThen (fun v => do
      let values ← meaningOfParams params fun slot h => ofSlot slot (List.mem_cons_of_mem _ h)
      pure (values.map ((name, v) :: ·))) v

/-- The meaning of a term, given what its references mean. -/
def meaningWith (e : Evaluation σ) : (t : Term Slot) →
    ((slot : Slot) → slot ∈ t.refs → Run σ (Except Fault Value)) → Run σ (Except Fault Value)
  | .string text, _ => pure (.ok (.string text))
  | .number n, _ => pure (.ok (.number n))
  | .attr slot, ofSlot => ofSlot slot (List.mem_singleton_self slot)
  | .coerce operand kind, ofSlot => do
    let v ← meaningWith e operand ofSlot
    pure (v >>= (·.coerce kind))
  | .binary op lhs rhs, ofSlot =>
    both (Value.apply op)
      (meaningWith e lhs fun slot h => ofSlot slot (List.mem_append_left _ h))
      (meaningWith e rhs fun slot h => ofSlot slot (List.mem_append_right _ h))
  | .request key, _ =>
    match e.request.get? key with
    | some text => pure (.ok (.string text))
    | none => pure (.error (.missingParameter key))
  | .rest url method params, ofSlot => do
    let values ← meaningOfParams params ofSlot
    andThen (fun values => do
      let answer ← e.service.request ⟨url, method, values⟩
      pure (answer.map .string)) values

/-- The meaning of an attribute is that of its term. -/
def meaningAt (e : Evaluation σ) (h : e.set.Acyclic) (slot : Slot) : Run σ (Except Fault Value) :=
  match ha : e.set.attributes[slot]? with
  | none => pure (.error (.unknownSlot slot))
  | some a => e.meaningWith a.value fun next hnext =>
    have _hstep : flip e.set.Refers next slot := ⟨a, ha, hnext⟩
    meaningAt e h next
termination_by h.wellFounded.wrap slot

variable (e : Evaluation σ) (h : e.set.Acyclic)

def meaning (t : Term Slot) : Run σ (Except Fault Value) :=
  e.meaningWith t fun slot _ => e.meaningAt h slot

def meaningOfCondition : Condition Slot → Run σ (Except Fault Bool)
  | .not inner => do
    let holds ← meaningOfCondition inner
    pure (holds.map (!·))
  | .and lhs rhs => both (fun a b => .ok (a && b)) (meaningOfCondition lhs) (meaningOfCondition rhs)
  | .or lhs rhs => both (fun a b => .ok (a || b)) (meaningOfCondition lhs) (meaningOfCondition rhs)
  | .equal lhs rhs => both (fun a b => .ok (a.equals b)) (e.meaning h lhs) (e.meaning h rhs)
  | .greater lhs rhs => both Value.greater (e.meaning h lhs) (e.meaning h rhs)

mutual

def meaningOfRule : Rule Slot → Run σ (Except Fault Decision)
  | .always decision => pure (.ok decision)
  | .never => pure (.ok .undecided)
  | .when condition decision => do
    let holds ← e.meaningOfCondition h condition
    pure (holds.map fun holds => if holds then decision else .undecided)
  | .branch condition onTrue onFalse => do
    let holds ← e.meaningOfCondition h condition
    andThen (fun holds => if holds then meaningOfRule onTrue else meaningOfRule onFalse) holds
  | .majority decision members => do
    let ds ← meaningOfMembers members
    pure (ds.map (Decision.majority decision))
  | .all decision members => do
    let ds ← meaningOfMembers members
    pure (ds.map (Decision.unanimous decision))
  | .any decision members => do
    let ds ← meaningOfMembers members
    pure (ds.map (Decision.anyOf decision))
  | .oneOf members => do
    let ds ← meaningOfMembers members
    pure (ds.map Decision.exclusive)

/-- The meanings of all members. The first fault in the list comes first. -/
def meaningOfMembers : List (Rule Slot) → Run σ (Except Fault (List Decision))
  | [] => pure (.ok [])
  | rule :: rules =>
    both (fun d ds => .ok (d :: ds)) (meaningOfRule rule) (meaningOfMembers rules)

end

theorem meaningAt_of_none {slot : Slot} (ha : e.set.attributes[slot]? = none) :
    e.meaningAt h slot = pure (.error (.unknownSlot slot)) := by
  rw [meaningAt]
  split
  · rfl
  · next a hsome => cases ha.symm.trans hsome

theorem meaningAt_of_some {slot : Slot} {a : Attribute Slot}
    (ha : e.set.attributes[slot]? = some a) : e.meaningAt h slot = e.meaning h a.value := by
  rw [meaningAt]
  split
  · next hnone => cases hnone.symm.trans ha
  · next b hsome =>
    cases hsome.symm.trans ha
    rfl

end Evaluation

/-! ## Leaving explanations out

There is one rule for each way in which the evaluator joins results. -/

/-- The second computation comes to the result of the first one, in the same session. -/
def Erases {σ α : Type} (x : StateM (Session σ) (Traced α))
    (y : StateM (Session σ) (Except Fault α)) : Prop :=
  ∀ s, y.run s = ((x.run s).1.result, (x.run s).2)

namespace Erases

open Evaluation

variable {σ α β γ : Type}

theorem of_leaf (a : α) (label : String) :
    Erases (pure (.leaf a label) : StateM (Session σ) (Traced α)) (pure (.ok a)) :=
  fun _ => rfl

theorem of_failed (fault : Fault) :
    Erases (pure (.failed fault) : StateM (Session σ) (Traced α)) (pure (.error fault)) :=
  fun _ => rfl

variable [Shown α] {x : StateM (Session σ) (Traced α)} {y : StateM (Session σ) (Except Fault α)}

theorem tryMap {f : α → Except Fault β} {label : String} (h : Erases x y) :
    Erases (do let t ← x; pure (t.tryMap f label)) (do let a ← y; pure (a >>= f)) := by
  intro s
  simp only [run_bind, run_pure, h s, Traced.result_tryMap]

theorem map {f : α → β} {label : String} (h : Erases x y) :
    Erases (do let t ← x; pure (t.map f label)) (do let a ← y; pure (a.map f)) := by
  intro s
  simp only [run_bind, run_pure, h s, Traced.result_map]
  cases (x.run s).1.result with
  | ok a => rfl
  | error fault => rfl

/-- A step that only adds to the explanation is left out. -/
theorem map_id {label : String} (h : Erases x y) :
    Erases (do let t ← x; pure (t.map id label)) y := by
  intro s
  rw [h s]
  simp only [run_bind, run_pure, Traced.result_map, id]
  cases (x.run s).1.result with
  | ok a => rfl
  | error fault => rfl

theorem combine [Shown β] {x' : StateM (Session σ) (Traced β)}
    {y' : StateM (Session σ) (Except Fault β)} {f : α → β → Except Fault γ} {label : String}
    (h : Erases x y) (h' : Erases x' y') :
    Erases (do let t ← x; let u ← x'; pure (Traced.combine f label t u)) (both f y y') := by
  intro s
  simp only [both, run_bind, run_pure, h s, h' (x.run s).2, Traced.result_combine]

theorem flatMap [Shown β] {next : α → StateM (Session σ) (Traced β)}
    {next' : α → StateM (Session σ) (Except Fault β)} {label : String} (h : Erases x y)
    (hn : ∀ a, Erases (next a) (next' a)) :
    Erases (do let t ← x; t.flatMap next label) (do let a ← y; andThen next' a) := by
  intro s
  have hresult := Traced.result_eq_parts (x.run s).1
  simp only [run_bind, Traced.run_flatMap, h s, hresult]
  cases (x.run s).1.parts with
  | error fault => rfl
  | ok part =>
    have hnext := hn part.1 (x.run s).2
    simp only [Traced.result_follow]
    exact hnext

end Erases

/-! ## Runs -/

namespace Evaluation

variable {σ : Type} (e : Evaluation σ)

theorem erases_lookup {deref : Slot → Run σ (Traced Value)} (key : String)
    (ofSlot : (slot : Slot) → slot ∈ (Term.request key).refs → Run σ (Except Fault Value)) :
    Erases (e.termWith deref (.request key)) (e.meaningWith (.request key) ofSlot) := by
  rw [termWith, meaningWith, lookup]
  cases e.request.get? key with
  | none => exact Erases.of_failed _
  | some text => exact Erases.of_leaf _ _

theorem erases_call (url : String) (method : Method) (values : List (String × Value)) :
    Erases (e.call url method values)
      (do let answer ← e.service.request ⟨url, method, values⟩; pure (answer.map .string)) := by
  intro s
  simp only [call, run_bind]
  cases ((e.service.request ⟨url, method, values⟩).run s).1 with
  | ok body => rfl
  | error fault => rfl

theorem erases_entryParts {deref : Slot → Run σ (Traced Value)} (params : List (String × Slot))
    {ofSlot : (slot : Slot) → slot ∈ params.map Prod.snd → Run σ (Except Fault Value)}
    (h : ∀ slot hslot, Erases (deref slot) (ofSlot slot hslot)) (s : Session σ) :
    (meaningOfParams params ofSlot).run s =
      (((Traced.entryParts deref params).run s).1.map (List.map Prod.fst),
        ((Traced.entryParts deref params).run s).2) := by
  induction params generalizing s with
  | nil => rfl
  | cons param params ih =>
    obtain ⟨name, slot⟩ := param
    have hfirst := h slot List.mem_cons_self s
    rw [Traced.result_eq_parts] at hfirst
    simp only [meaningOfParams, Traced.entryParts, run_bind, hfirst]
    cases ((deref slot).run s).1.parts with
    | error fault => rfl
    | ok part =>
      have hrest := ih (fun slot hslot => h slot (List.mem_cons_of_mem _ hslot))
        ((deref slot).run s).2
      simp only [Except.map, andThen, run_bind, run_pure, hrest]
      cases ((Traced.entryParts deref params).run ((deref slot).run s).2).1 with
      | error fault => rfl
      | ok parts => rfl

theorem erases_traverse {deref : Slot → Run σ (Traced Value)} (params : List (String × Slot))
    {ofSlot : (slot : Slot) → slot ∈ params.map Prod.snd → Run σ (Except Fault Value)}
    (h : ∀ slot hslot, Erases (deref slot) (ofSlot slot hslot)) :
    Erases (Traced.traverse deref "params" params) (meaningOfParams params ofSlot) := by
  intro s
  rw [erases_entryParts params h s]
  simp only [Traced.traverse, run_bind]
  cases ((Traced.entryParts deref params).run s).1 with
  | error fault => rfl
  | ok parts => rfl

theorem erases_termWith {deref : Slot → Run σ (Traced Value)} (t : Term Slot)
    {ofSlot : (slot : Slot) → slot ∈ t.refs → Run σ (Except Fault Value)}
    (h : ∀ slot hslot, Erases (deref slot) (ofSlot slot hslot)) :
    Erases (e.termWith deref t) (e.meaningWith t ofSlot) := by
  induction t with
  | string text => exact Erases.of_leaf _ _
  | number n => exact Erases.of_leaf _ _
  | attr slot => exact h slot (List.mem_singleton_self slot)
  | coerce operand kind ih => exact (ih h).tryMap
  | binary op lhs rhs ihl ihr =>
    have hl := ihl fun slot hslot => h slot (List.mem_append_left _ hslot)
    have hr := ihr fun slot hslot => h slot (List.mem_append_right _ hslot)
    exact hl.combine hr
  | request key => exact e.erases_lookup key ofSlot
  | rest url method params => exact (erases_traverse params h).flatMap (e.erases_call url method)

/-- The chain is a path of references to the slot, so that it does not hold the slot already, and
it is not longer than the limit. By induction along the references. -/
theorem erases_attrAt (h : e.set.Acyclic) (hd : e.set.Shallow e.depthLimit) {t : Term Slot}
    (room : Nat) (chain : List Slot) (slot : Slot) (htrail : e.set.Trail t (slot :: chain))
    (hroom : chain.length + room = e.depthLimit) :
    Erases (e.attrAt room chain slot) (e.meaningAt h slot) := by
  induction slot using h.wellFounded.induction generalizing room chain with
  | h slot ih =>
    obtain ⟨ha, hrun⟩ | ⟨a, ha, ⟨hin, -⟩ | ⟨-, rfl, -⟩ | ⟨less, -, rfl, hrun⟩⟩ :=
      e.attrAt_cases room chain slot
    · rw [hrun, e.meaningAt_of_none h ha]
      exact Erases.of_failed _
    · have hcycle := htrail.transGen slot hin
      exact absurd hcycle (h slot)
    · have hlt : slot < e.set.attributes.length := (List.getElem?_eq_some_iff.mp ha).1
      have hlong : e.depthLimit < (slot :: chain).length := by
        rw [List.length_cons]
        omega
      have hdeep : e.set.Deep t e.depthLimit :=
        ⟨slot :: chain, htrail, hlong, List.forall_mem_cons.mpr ⟨hlt, htrail.lt⟩⟩
      exact absurd hdeep (hd t)
    · rw [hrun, e.meaningAt_of_some h ha]
      have hderef : ∀ next (_ : next ∈ a.value.refs),
          Erases (e.attrAt less (slot :: chain) next) (e.meaningAt h next) := by
        intro next hnext
        have hr : e.set.Refers slot next := ⟨a, ha, hnext⟩
        apply ih next hr
        · exact .step htrail hr
        · rw [List.length_cons]
          omega
      exact (e.erases_termWith a.value hderef).map_id

theorem erases_term (h : e.set.Acyclic) (hd : e.set.Shallow e.depthLimit) (t : Term Slot) :
    Erases (e.term t) (e.meaning h t) := by
  apply e.erases_termWith t
  intro slot hslot
  exact e.erases_attrAt h hd _ _ _ (.first hslot) (Nat.zero_add _)

theorem erases_condition (h : e.set.Acyclic) (hd : e.set.Shallow e.depthLimit)
    (c : Condition Slot) : Erases (e.condition c) (e.meaningOfCondition h c) := by
  induction c with
  | not inner ih => exact ih.map
  | and lhs rhs ihl ihr => exact ihl.combine ihr
  | or lhs rhs ihl ihr => exact ihl.combine ihr
  | equal lhs rhs => exact (e.erases_term h hd lhs).combine (e.erases_term h hd rhs)
  | greater lhs rhs => exact (e.erases_term h hd lhs).combine (e.erases_term h hd rhs)

/-- A group means what comes of the meanings of its members. -/
theorem erases_group {members : Run σ (List (Traced Decision))}
    {ofMembers : Run σ (Except Fault (List Decision))} {f : List Decision → Decision}
    {label : String}
    (hm : ∀ s, ofMembers.run s = (Traced.results (members.run s).1, (members.run s).2)) :
    Erases (do let xs ← members; pure (Traced.aggregate f label xs))
      (do let ds ← ofMembers; pure (ds.map f)) := by
  intro s
  simp only [run_bind, run_pure, hm s, Traced.result_aggregate]
  cases Traced.results (members.run s).1 with
  | error fault => rfl
  | ok ds => rfl

mutual

theorem erases_rule (h : e.set.Acyclic) (hd : e.set.Shallow e.depthLimit) (r : Rule Slot) :
    Erases (e.rule r) (e.meaningOfRule h r) := by
  cases r with
  | always decision => exact Erases.of_leaf _ _
  | never => exact Erases.of_leaf _ _
  | when condition decision => exact (e.erases_condition h hd condition).map
  | branch condition onTrue onFalse =>
    refine (e.erases_condition h hd condition).flatMap fun holds => ?_
    cases holds with
    | true => exact erases_rule h hd onTrue
    | false => exact erases_rule h hd onFalse
  | majority decision members => exact erases_group (results_rules h hd members)
  | all decision members => exact erases_group (results_rules h hd members)
  | any decision members => exact erases_group (results_rules h hd members)
  | oneOf members => exact erases_group (results_rules h hd members)

theorem results_rules (h : e.set.Acyclic) (hd : e.set.Shallow e.depthLimit)
    (rs : List (Rule Slot)) (s : Session σ) :
    (e.meaningOfMembers h rs).run s =
      (Traced.results ((e.rules rs).run s).1, ((e.rules rs).run s).2) := by
  cases rs with
  | nil => rfl
  | cons r rs =>
    have hfirst := erases_rule h hd r s
    have hrest := results_rules h hd rs ((e.rule r).run s).2
    simp only [meaningOfMembers, both, rules, run_bind, run_pure, hfirst, hrest, Traced.results]
    rfl

end

/-- What a computation comes to, without its explanation. -/
def outcome {α : Type} (x : Run σ (Traced α)) : Run σ (Except Fault α) := do
  let t ← x
  pure t.result

theorem outcome_eq_of_erases {α : Type} {x : Run σ (Traced α)} {y : Run σ (Except Fault α)}
    (hx : Erases x y) : outcome x = y :=
  StateT.ext fun s => (hx s).symm

/-- Evaluation comes to what the policy means, by the same calls, wherever no references lead back
or through more attributes than the limit. So an attribute comes to the same inside of any chain of
attributes that refer to each other as by itself. -/
theorem evaluates_to_meaning (h : e.set.Acyclic) (hd : e.set.Shallow e.depthLimit) :
    (∀ t, outcome (e.term t) = e.meaning h t) ∧
    (∀ c, outcome (e.condition c) = e.meaningOfCondition h c) ∧
    (∀ r, outcome (e.rule r) = e.meaningOfRule h r) ∧
    ∀ t slot chain room, e.set.Trail t (slot :: chain) → chain.length + room = e.depthLimit →
      outcome (e.attrAt room chain slot) = outcome (e.term (.attr slot)) := by
  refine ⟨?_, ?_, ?_, ?_⟩
  · exact fun t => outcome_eq_of_erases (e.erases_term h hd t)
  · exact fun c => outcome_eq_of_erases (e.erases_condition h hd c)
  · exact fun r => outcome_eq_of_erases (e.erases_rule h hd r)
  · intro t slot chain room htrail hroom
    have hinside := outcome_eq_of_erases (e.erases_attrAt h hd room chain slot htrail hroom)
    have htop := outcome_eq_of_erases (e.erases_term h hd (.attr slot))
    rw [hinside, htop]
    rfl

/-- An order that adds up a price twice, which is asked for with the item. -/
def order : RuleSet Slot where
  attributes :=
    [⟨"total", .binary .plus (.attr 1) (.attr 1)⟩,
      ⟨"price", .coerce (.rest "http://prices" .get [("item", 2)]) .number⟩,
      ⟨"item", .request "item"⟩]
  rules := [.when (.greater (.attr 0) (.number ⟨30, by decide⟩)) .deny]

theorem acyclic_order : order.Acyclic := by
  apply RuleSet.acyclic_of_lt
  rintro slot next ⟨a, ha, hnext⟩
  match slot, ha with
  | 0, rfl =>
    have hprice : next ∈ [1, 1] := hnext
    simp only [List.mem_cons, List.not_mem_nil, or_false, or_self] at hprice
    rw [hprice]
    exact Nat.zero_lt_one
  | 1, rfl =>
    have hitem : next ∈ [2] := hnext
    simp only [List.mem_singleton] at hitem
    rw [hitem]
    exact Nat.one_lt_two
  | 2, rfl => cases hnext

def orderOfTea : Evaluation Service.Script.History where
  set := order
  request := [("item", "tea")]
  service := Service.Script.service ⟨[("http://prices", [.ok "20"])], none⟩
  depthLimit := 3

/-- The order means 40, which takes two calls, and its price means the same inside of the total. -/
theorem order_of_tea_means_forty :
    ((orderOfTea.meaning acyclic_order (.attr 0)).run ⟨[], []⟩).1 =
      .ok (.number ⟨40, by decide⟩) ∧
    (((orderOfTea.meaning acyclic_order (.attr 0)).run ⟨[], []⟩).2.calls.map (·.url)) =
      ["http://prices", "http://prices"] ∧
    outcome (orderOfTea.attrAt 2 [0] 1) = outcome (orderOfTea.term (.attr 1)) := by
  have hshallow : order.Shallow 3 := acyclic_order.shallow (by decide)
  have h := orderOfTea.evaluates_to_meaning acyclic_order hshallow
  obtain ⟨hterm, -, -, hinside⟩ := h
  have htrail : order.Trail (.attr 0) [1, 0] := .step (.first (by decide)) ⟨_, rfl, by decide⟩
  refine ⟨?_, ?_, hinside (.attr 0) 1 [0] 2 htrail rfl⟩
  · rw [← hterm]
    rfl
  · rw [← hterm]
    rfl

end Evaluation

end Policy
