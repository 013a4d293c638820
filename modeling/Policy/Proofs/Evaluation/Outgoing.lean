import Policy.Proofs.Evaluation.Confined
import Policy.Service.Script

namespace Policy

/-! ## Policies whose calls are written down

A value can decide on calls in two ways: it selects a leg of a branch, or it is a parameter of a
call. Without either, the calls can be read off the policy. -/

/-- No call in the term has parameters. -/
def Term.paramFree {α : Type} : Term α → Bool
  | .string _ | .number _ | .attr _ | .request _ => true
  | .coerce operand _ => operand.paramFree
  | .binary _ lhs rhs => lhs.paramFree && rhs.paramFree
  | .rest _ _ params => params.isEmpty

mutual

/-- No branch stands in the rule. -/
def Rule.branchFree {α : Type} : Rule α → Bool
  | .always _ | .never | .when _ _ => true
  | .branch _ _ _ => false
  | .majority _ members | .all _ members | .any _ members | .oneOf members =>
    Rule.membersBranchFree members

def Rule.membersBranchFree {α : Type} : List (Rule α) → Bool
  | [] => true
  | rule :: rules => rule.branchFree && Rule.membersBranchFree rules

end

namespace RuleSet

/-- No rule is a branch, and no call has parameters. -/
structure Straight (set : RuleSet Slot) : Prop where
  rules : Rule.membersBranchFree set.rules
  attributes : ∀ a ∈ set.attributes, a.value.paramFree
  terms : ∀ t ∈ Rule.memberTerms set.rules, t.paramFree

/-- The calls that stand in a term, where `inAttr` tells those of attributes. -/
def callsIn (inAttr : Slot → List Call) : Term Slot → List Call
  | .string _ | .number _ | .request _ => []
  | .attr slot => inAttr slot
  | .coerce operand _ => callsIn inAttr operand
  | .binary _ lhs rhs => callsIn inAttr lhs ++ callsIn inAttr rhs
  | .rest url method _ => [⟨url, method, []⟩]

/-- The calls of an attribute inside of those on the chain, with room for so many more. -/
def callsAt (set : RuleSet Slot) : (room : Nat) → (chain : List Slot) → Slot → List Call
  | room, chain, slot =>
    match set.attributes[slot]? with
    | none => []
    | some a =>
      if chain.contains slot then []
      else
        match room with
        | 0 => []
        | room + 1 => callsIn (callsAt set room (slot :: chain)) a.value

/-- The calls that a term spells out under a limit, attributes looked into. -/
def callsOf (set : RuleSet Slot) (limit : Nat) : Term Slot → List Call :=
  callsIn (set.callsAt limit [])

/-- The calls that the rules spell out, term by term. -/
def outgoing (set : RuleSet Slot) (limit : Nat) : List Call :=
  (Rule.memberTerms set.rules).flatMap (set.callsOf limit)

end RuleSet

/-! ## Computations with fixed calls -/

/-- Wherever it starts, the computation makes these calls. -/
def Makes {σ α : Type} (calls : List Call) (x : StateM (Session σ) α) : Prop :=
  ∀ s, (x.run s).2.calls = s.calls ++ calls

namespace Makes

variable {σ α β : Type} {first second : List Call}

theorem of_pure (a : α) : Makes [] (pure a : StateM (Session σ) α) :=
  fun s => (List.append_nil s.calls).symm

/-- What follows is made whatever the first computation comes to. -/
theorem bind {x : StateM (Session σ) α} {next : α → StateM (Session σ) β} (h : Makes first x)
    (hn : ∀ a, Makes second (next a)) : Makes (first ++ second) (x >>= next) := by
  intro s
  have hfirst := h s
  have hsecond := hn (x.run s).1 (x.run s).2
  rw [run_bind, hsecond, hfirst, List.append_assoc]

theorem then_pure {x : StateM (Session σ) α} (h : Makes first x) (f : α → β) :
    Makes first (do let a ← x; pure (f a)) := by
  have hboth := h.bind fun a => of_pure (f a)
  rwa [List.append_nil] at hboth

end Makes

/-! ## Runs -/

namespace Evaluation

variable {σ : Type} {e : Evaluation σ}

theorem makes_call (h : ∀ state, e.service.stopped state = false) (url : String)
    (method : Method) (values : List (String × Value)) :
    Makes [⟨url, method, values⟩] (e.call url method values) := by
  intro s
  have hrequest : ((e.service.request ⟨url, method, values⟩).run s).2.calls =
      s.calls ++ [⟨url, method, values⟩] := by
    rw [Service.run_request, h]
    rfl
  rw [← hrequest, call, run_bind]
  cases ((e.service.request ⟨url, method, values⟩).run s).1 with
  | ok body => rfl
  | error fault => rfl

/-- Faults do not matter: the operands of a step are evaluated whether or not the others fail. -/
theorem makes_termWith (h : ∀ state, e.service.stopped state = false)
    {deref : Slot → Run σ (Traced Value)} {inAttr : Slot → List Call}
    (hderef : ∀ slot, Makes (inAttr slot) (deref slot)) (t : Term Slot) (ht : t.paramFree) :
    Makes (RuleSet.callsIn inAttr t) (e.termWith deref t) := by
  induction t with
  | string text => exact Makes.of_pure _
  | number n => exact Makes.of_pure _
  | attr slot => exact hderef slot
  | coerce operand kind ih => exact (ih ht).then_pure _
  | binary op lhs rhs ihl ihr =>
    obtain ⟨hl, hr⟩ := Bool.and_eq_true_iff.mp ht
    exact (ihl hl).bind fun x => (ihr hr).then_pure _
  | request key => exact Makes.of_pure _
  | rest url method params =>
    have hnil : params = [] := List.isEmpty_iff.mp ht
    subst hnil
    exact (makes_call h url method []).then_pure _

/-- By induction on the room, since each attribute leaves one less to those it refers to. -/
theorem makes_attrAt (h : ∀ state, e.service.stopped state = false)
    (hset : ∀ a ∈ e.set.attributes, a.value.paramFree) (room : Nat) (chain : List Slot)
    (slot : Slot) : Makes (e.set.callsAt room chain slot) (e.attrAt room chain slot) := by
  induction room using Nat.strongRecOn generalizing chain slot with
  | ind room ih =>
    unfold attrAt RuleSet.callsAt
    cases ha : e.set.attributes[slot]? with
    | none => exact Makes.of_pure _
    | some a =>
      have hvalue := hset a (List.mem_of_getElem? ha)
      dsimp only
      split
      · exact Makes.of_pure _
      · cases room with
        | zero => exact Makes.of_pure _
        | succ room =>
          have hderef := ih room (Nat.lt_succ_self room) (slot :: chain)
          exact (makes_termWith h hderef a.value hvalue).then_pure _

theorem makes_term (h : ∀ state, e.service.stopped state = false)
    (hset : ∀ a ∈ e.set.attributes, a.value.paramFree) (t : Term Slot) (ht : t.paramFree) :
    Makes (e.set.callsOf e.depthLimit t) (e.term t) :=
  makes_termWith h (makes_attrAt h hset e.depthLimit []) t ht

theorem makes_condition (h : ∀ state, e.service.stopped state = false)
    (hset : ∀ a ∈ e.set.attributes, a.value.paramFree) (c : Condition Slot)
    (hterms : ∀ t ∈ c.terms, t.paramFree) :
    Makes (c.terms.flatMap (e.set.callsOf e.depthLimit)) (e.condition c) := by
  induction c with
  | not inner ih => exact (ih hterms).then_pure _
  | and lhs rhs ihl ihr | or lhs rhs ihl ihr =>
    obtain ⟨hl, hr⟩ := List.forall_mem_append.mp hterms
    rw [Condition.terms, List.flatMap_append]
    exact (ihl hl).bind fun x => (ihr hr).then_pure _
  | equal lhs rhs | greater lhs rhs =>
    have hl := makes_term h hset lhs (hterms lhs (by simp [Condition.terms]))
    have hr := makes_term h hset rhs (hterms rhs (by simp [Condition.terms]))
    rw [Condition.terms, List.flatMap_cons, List.flatMap_singleton]
    exact hl.bind fun x => hr.then_pure _

mutual

theorem makes_rule (h : ∀ state, e.service.stopped state = false)
    (hset : ∀ a ∈ e.set.attributes, a.value.paramFree) (r : Rule Slot) (hr : r.branchFree)
    (hterms : ∀ t ∈ r.terms, t.paramFree) :
    Makes (r.terms.flatMap (e.set.callsOf e.depthLimit)) (e.rule r) := by
  cases r with
  | always decision | never => exact Makes.of_pure _
  | when condition decision => exact (makes_condition h hset condition hterms).then_pure _
  | branch condition onTrue onFalse => cases hr
  | majority decision members | all decision members | any decision members | oneOf members =>
    exact (makes_rules h hset members hr hterms).then_pure _

theorem makes_rules (h : ∀ state, e.service.stopped state = false)
    (hset : ∀ a ∈ e.set.attributes, a.value.paramFree) (rs : List (Rule Slot))
    (hr : Rule.membersBranchFree rs) (hterms : ∀ t ∈ Rule.memberTerms rs, t.paramFree) :
    Makes ((Rule.memberTerms rs).flatMap (e.set.callsOf e.depthLimit)) (e.rules rs) := by
  cases rs with
  | nil => exact Makes.of_pure _
  | cons r rs =>
    obtain ⟨hfirst, hrest⟩ := Bool.and_eq_true_iff.mp hr
    obtain ⟨htfirst, htrest⟩ := List.forall_mem_append.mp hterms
    rw [Rule.memberTerms, List.flatMap_append]
    exact (makes_rule h hset r hfirst htfirst).bind fun x =>
      (makes_rules h hset rs hrest htrest).then_pure _

end

theorem makes_decisions (h : e.set.Straight) (hs : ∀ state, e.service.stopped state = false) :
    Makes (e.set.outgoing e.depthLimit) e.decisions :=
  makes_rules hs h.attributes e.set.rules h.rules h.terms

/-- Without branches and without parameters, neither requests nor answers have a say in what is
called: the calls of a run are those that the policy spells out. -/
theorem calls_independent_of_data {σ τ : Type} (set : RuleSet Slot) (limit : Nat)
    (h : set.Straight) (request request' : Request) (service : Service σ) (service' : Service τ)
    (hs : ∀ state, service.stopped state = false) (hs' : ∀ state, service'.stopped state = false)
    (state : σ) (state' : τ) :
    ((Evaluation.mk set request service limit).decisions.run ⟨state, []⟩).2.calls =
      ((Evaluation.mk set request' service' limit).decisions.run ⟨state', []⟩).2.calls := by
  have hfirst : Makes (set.outgoing limit) (Evaluation.mk set request service limit).decisions :=
    makes_decisions h hs
  have hsecond :
      Makes (set.outgoing limit) (Evaluation.mk set request' service' limit).decisions :=
    makes_decisions h hs'
  rw [hfirst, hsecond]

/-- A policy whose rules call at many places, among them in an attribute that refers to itself. -/
def probes : RuleSet Slot where
  attributes :=
    [⟨"loop", .binary .plus (.attr 0) (.rest "http://loop" .get [])⟩,
      ⟨"age", .coerce (.rest "http://ages" .post []) .number⟩]
  rules :=
    [.when (.and (.greater (.coerce (.request "n") .number) (.attr 1)) (.equal (.attr 0) (.attr 1)))
        .permit,
      .any .deny [.always .deny, .when (.equal (.rest "http://ban" .get []) (.request "n")) .deny]]

/-- One run has all its calls refused and lacks a parameter, the other one has answers. -/
theorem probes_calls_of_any_data :
    ((Evaluation.mk probes [] .disabled 3).decisions.run ⟨(), []⟩).2.calls =
      ((Evaluation.mk probes [("n", "50")]
        (Service.Script.service ⟨[("http://ages", [.ok "41"]), ("http://ban", [.ok "50"])], none⟩)
        3).decisions.run ⟨[], []⟩).2.calls :=
  calls_independent_of_data probes 3 ⟨by decide, by decide, by decide⟩ [] [("n", "50")]
    .disabled _ (fun _ => rfl) (fun _ => rfl) () []

-- Four calls, whatever is given: the attribute that refers to itself calls once before it fails.
example : (probes.outgoing 3).map (·.url) =
    ["http://ages", "http://loop", "http://ages", "http://ban"] := by rfl

end Evaluation

end Policy
