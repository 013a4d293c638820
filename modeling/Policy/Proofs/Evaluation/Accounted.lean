import Policy.Proofs.Evaluation.Running
import Policy.Proofs.Traced
import Policy.Service.Script

namespace Policy

/-! ## Terms that make calls, as they come up -/

/-- A term that makes a call, when its turn comes: inside of which attributes, with how much room
for more of them, and in which session. -/
structure Visit (σ : Type) where
  room : Nat
  chain : List Slot
  url : String
  method : Method
  params : List (String × Slot)
  start : Session σ

namespace Evaluation

variable {σ α β : Type} (e : Evaluation σ)

section Terms

variable (room : Nat) (chain : List Slot) (inAttr : Slot → Session σ → List (Visit σ))

/-- Attributes of parameters are looked into one after another up to the first that fails. -/
def paramVisits : List (String × Slot) → Session σ → List (Visit σ)
  | [], _ => []
  | (_, slot) :: params, s =>
    inAttr slot s ++ match (e.attrAt room chain slot).run s with
      | (.success _ _ _, s') => paramVisits params s'
      | (.failed _, _) => []

/-- The calling terms that come up in a term, in the order in which they are done. `inAttr` tells
those of attributes. -/
def termVisits : Term Slot → Session σ → List (Visit σ)
  | .string _, _ | .number _, _ | .request _, _ => []
  | .attr slot, s => inAttr slot s
  | .coerce operand _, s => termVisits operand s
  | .binary _ lhs rhs, s =>
    termVisits lhs s ++ termVisits rhs ((e.termWith (e.attrAt room chain) lhs).run s).2
  | .rest url method params, s =>
    e.paramVisits room chain inAttr params s ++ [⟨room, chain, url, method, params, s⟩]

end Terms

def attrVisits : (room : Nat) → (chain : List Slot) → Slot → Session σ → List (Visit σ)
  | room, chain, slot, s =>
    match e.set.attributes[slot]? with
    | none => []
    | some a =>
      if chain.contains slot then []
      else
        match room with
        | 0 => []
        | room + 1 => e.termVisits room (slot :: chain) (attrVisits room (slot :: chain)) a.value s

def visits : Term Slot → Session σ → List (Visit σ) :=
  e.termVisits e.depthLimit [] (e.attrVisits e.depthLimit [])

def conditionVisits : Condition Slot → Session σ → List (Visit σ)
  | .not inner, s => conditionVisits inner s
  | .and lhs rhs, s | .or lhs rhs, s =>
    conditionVisits lhs s ++ conditionVisits rhs ((e.condition lhs).run s).2
  | .equal lhs rhs, s | .greater lhs rhs, s => e.visits lhs s ++ e.visits rhs ((e.term lhs).run s).2

mutual

/-- Of a branch only the leg that is selected has its turn. -/
def ruleVisits : Rule Slot → Session σ → List (Visit σ)
  | .always _, _ | .never, _ => []
  | .when condition _, s => e.conditionVisits condition s
  | .branch condition onTrue onFalse, s =>
    e.conditionVisits condition s ++ match (e.condition condition).run s with
      | (.success true _ _, s') => ruleVisits onTrue s'
      | (.success false _ _, s') => ruleVisits onFalse s'
      | (.failed _, _) => []
  | .majority _ members, s | .all _ members, s | .any _ members, s | .oneOf members, s =>
    memberVisits members s

def memberVisits : List (Rule Slot) → Session σ → List (Visit σ)
  | [], _ => []
  | r :: rs, s => ruleVisits r s ++ memberVisits rs ((e.rule r).run s).2

end

/-! ## Parameters that are reduced -/

/-- The parameters are reduced one after another, each to a value. -/
inductive Reduced (deref : Slot → Run σ (Traced Value)) :
    List (String × Slot) → Session σ → List (String × Value) → Session σ → Prop
  | nil {s} : Reduced deref [] s [] s
  | cons {name slot params s x s' v values s''} (h : (deref slot).run s = (x, s'))
      (hx : x.result = .ok v) (hs : Reduced deref params s' values s'') :
      Reduced deref ((name, slot) :: params) s ((name, v) :: values) s''

/-- The parameters in front of one are reduced, and that one is the first to fail. -/
inductive FailsFirst (deref : Slot → Run σ (Traced Value)) :
    List (String × Slot) → Session σ → Fault → Session σ → Prop
  | intro {before after name slot s values s' fault s''} (h : Reduced deref before s values s')
      (hfails : (deref slot).run s' = (.failed fault, s'')) :
      FailsFirst deref (before ++ (name, slot) :: after) s fault s''

/-- The calls that a term makes by itself, behind those of its parameters. -/
def ownCalls (v : Visit σ) : List Call :=
  match (Traced.entryParts (e.attrAt v.room v.chain) v.params).run v.start with
  | (.ok parts, s) =>
    if e.service.stopped s.state then [] else [⟨v.url, v.method, parts.map Prod.fst⟩]
  | (.error _, _) => []

/-- What becomes of a visited term. -/
def visit (v : Visit σ) : Traced Value × Session σ :=
  (e.termWith (e.attrAt v.room v.chain) (.rest v.url v.method v.params)).run v.start

section Params

variable {e : Evaluation σ} {deref : Slot → Run σ (Traced Value)} {name : String} {slot : Slot}
  {params : List (String × Slot)} {s s' s'' : Session σ} {x : Traced Value} {v : Value}
  {values : List (String × Value)} {fault : Fault}

theorem run_entryParts_success {label : String} {children : List Explanation}
    (h : (deref slot).run s = (.success v label children, s')) :
    ((Traced.entryParts deref ((name, slot) :: params)).run s) =
      (((Traced.entryParts deref params).run s').1.map
        (((name, v), .node (.value v) label children) :: ·),
        ((Traced.entryParts deref params).run s').2) := by
  rw [Traced.entryParts, run_bind, h]
  rfl

theorem run_entryParts_failed (h : (deref slot).run s = (.failed fault, s')) :
    (Traced.entryParts deref ((name, slot) :: params)).run s = (.error fault, s') := by
  rw [Traced.entryParts, run_bind, h]
  rfl

/-- Parameters keep the names and the order in which they are declared. -/
theorem Reduced.names (h : Reduced deref params s values s') :
    values.map Prod.fst = params.map Prod.fst := by
  induction h with
  | nil => rfl
  | cons h hx hs ih => rw [List.map_cons, List.map_cons, ih]

theorem Reduced.entryParts (h : Reduced deref params s values s') :
    ∃ parts, (Traced.entryParts deref params).run s = (.ok parts, s') ∧
      parts.map Prod.fst = values := by
  induction h with
  | nil => exact ⟨[], rfl, rfl⟩
  | @cons name slot params s x s' v values s'' h hx hs ih =>
    obtain ⟨parts, hparts, rfl⟩ := ih
    cases x with
    | success v label children =>
      cases hx
      rw [run_entryParts_success h, hparts]
      exact ⟨_, rfl, rfl⟩
    | failed fault => cases hx

theorem FailsFirst.entryParts (h : FailsFirst deref params s fault s') :
    (Traced.entryParts deref params).run s = (.error fault, s') := by
  obtain ⟨h, hfails⟩ := h
  induction h with
  | nil => exact run_entryParts_failed hfails
  | @cons name slot params s x s' v values s'' h hx hs ih =>
    cases x with
    | success v label children =>
      rw [List.cons_append, run_entryParts_success h, ih hfails]
      rfl
    | failed fault => cases hx

/-- Either all parameters are reduced, or one of them is the first to fail. -/
theorem reduced_or_failsFirst (deref : Slot → Run σ (Traced Value)) (params : List (String × Slot))
    (s : Session σ) :
    (∃ values s', Reduced deref params s values s') ∨
      ∃ fault s', FailsFirst deref params s fault s' := by
  induction params generalizing s with
  | nil => exact .inl ⟨[], s, .nil⟩
  | cons p params ih =>
    obtain ⟨name, slot⟩ := p
    rcases hx : (deref slot).run s with ⟨x, s'⟩
    cases x with
    | failed fault =>
      have hfirst : FailsFirst deref ([] ++ (name, slot) :: params) s fault s' := .intro .nil hx
      exact .inr ⟨fault, s', hfirst⟩
    | success v label children =>
      rcases ih s' with ⟨values, s'', hs⟩ | ⟨fault, s'', ⟨hs, hfails⟩⟩
      · exact .inl ⟨_, s'', .cons hx rfl hs⟩
      · exact .inr ⟨fault, s'', .intro (.cons hx rfl hs) hfails⟩

end Params

/-! ## What becomes of a single term -/

section Outcome

variable {e : Evaluation σ} {v : Visit σ} {values : List (String × Value)} {fault : Fault}
  {s' : Session σ}

theorem run_traverse_ok {ι : Type} {f : ι → Run σ (Traced Value)} {label : String}
    {entries : List (String × ι)} {s : Session σ} {parts : List ((String × Value) × Explanation)}
    (h : (Traced.entryParts f entries).run s = (.ok parts, s')) :
    (Traced.traverse f label entries).run s =
      (.success (parts.map Prod.fst) label (parts.map Prod.snd), s') := by
  rw [Traced.traverse, run_bind, h]
  rfl

theorem run_traverse_error {ι : Type} {f : ι → Run σ (Traced Value)} {label : String}
    {entries : List (String × ι)} {s : Session σ}
    (h : (Traced.entryParts f entries).run s = (.error fault, s')) :
    (Traced.traverse f label entries).run s = (.failed fault, s') := by
  rw [Traced.traverse, run_bind, h]
  rfl

/-- Once its parameters are reduced, a term makes its call. -/
theorem visit_of_reduced
    (h : Reduced (e.attrAt v.room v.chain) v.params v.start values s') :
    (e.visit v).1.result = ((e.service.request ⟨v.url, v.method, values⟩).run s').1.map .string ∧
      (e.visit v).2 = ((e.service.request ⟨v.url, v.method, values⟩).run s').2 := by
  obtain ⟨parts, hparts, rfl⟩ := h.entryParts
  rw [visit, termWith, run_bind, run_traverse_ok hparts, Traced.run_flatMap]
  dsimp only [Traced.parts]
  rw [call, run_bind]
  cases ((e.service.request ⟨v.url, v.method, parts.map Prod.fst⟩).run s').1 with
  | ok body => exact ⟨rfl, rfl⟩
  | error fault => exact ⟨rfl, rfl⟩

theorem visit_of_failsFirst
    (h : FailsFirst (e.attrAt v.room v.chain) v.params v.start fault s') :
    e.visit v = (.failed fault, s') := by
  rw [visit, termWith, run_bind, run_traverse_error h.entryParts]
  rfl

theorem ownCalls_of_reduced
    (h : Reduced (e.attrAt v.room v.chain) v.params v.start values s') :
    e.ownCalls v = if e.service.stopped s'.state then [] else [⟨v.url, v.method, values⟩] := by
  obtain ⟨parts, hparts, rfl⟩ := h.entryParts
  rw [ownCalls, hparts]

theorem ownCalls_of_failsFirst
    (h : FailsFirst (e.attrAt v.room v.chain) v.params v.start fault s') : e.ownCalls v = [] := by
  rw [ownCalls, h.entryParts]

/-- By itself, a term adds its own calls to those that are made for its parameters. -/
theorem calls_visit (e : Evaluation σ) (v : Visit σ) :
    (e.visit v).2.calls =
      ((Traced.entryParts (e.attrAt v.room v.chain) v.params).run v.start).2.calls ++
        e.ownCalls v := by
  rcases reduced_or_failsFirst (e.attrAt v.room v.chain) v.params v.start with
    ⟨values, s', h⟩ | ⟨fault, s', h⟩
  · obtain ⟨parts, hparts, -⟩ := h.entryParts
    rw [(visit_of_reduced h).2, ownCalls_of_reduced h, hparts, Service.run_request]
    split
    · exact (List.append_nil _).symm
    · rfl
  · rw [visit_of_failsFirst h, ownCalls_of_failsFirst h, h.entryParts, List.append_nil]

end Outcome

/-! ## Calls of a whole run -/

/-- All calls that a computation makes are those of the terms that come up in it. -/
def Accounts (e : Evaluation σ) (visits : Session σ → List (Visit σ)) (x : Run σ α) : Prop :=
  ∀ s, (x.run s).2.calls = s.calls ++ (visits s).flatMap e.ownCalls

namespace Accounts

variable {e : Evaluation σ} {visits : Session σ → List (Visit σ)} {x : Run σ α}

theorem of_pure (a : α) : Accounts e (fun _ => []) (pure a) :=
  fun s => (List.append_nil s.calls).symm

/-- What comes up behind the first computation comes up in the session that it leaves. -/
theorem bind {next : α → Run σ β} {more : Session σ → List (Visit σ)} (h : Accounts e visits x)
    (hn : ∀ s, (((next (x.run s).1).run (x.run s).2).2.calls =
      (x.run s).2.calls ++ (more s).flatMap e.ownCalls)) :
    Accounts e (fun s => visits s ++ more s) (x >>= next) := by
  intro s
  rw [run_bind, hn, h, List.flatMap_append, List.append_assoc]

theorem then_pure (h : Accounts e visits x) (f : α → β) :
    Accounts e visits (do let a ← x; pure (f a)) := h

theorem both {γ : Type} {y : Run σ β} {more : Session σ → List (Visit σ)} (hx : Accounts e visits x)
    (hy : Accounts e more y) (f : α → β → γ) :
    Accounts e (fun s => visits s ++ more (x.run s).2) (do
      let a ← x
      let b ← y
      pure (f a b)) :=
  hx.bind fun s => hy (x.run s).2

end Accounts

section Accounted

variable {e : Evaluation σ} {room : Nat} {chain : List Slot}
  {inAttr : Slot → Session σ → List (Visit σ)}

theorem accounts_params (h : ∀ slot, Accounts e (inAttr slot) (e.attrAt room chain slot))
    (params : List (String × Slot)) :
    Accounts e (e.paramVisits room chain inAttr params)
      (Traced.entryParts (e.attrAt room chain) params) := by
  intro s
  induction params generalizing s with
  | nil => exact Accounts.of_pure _ s
  | cons p params ih =>
    obtain ⟨name, slot⟩ := p
    have hslot := h slot s
    rcases hx : (e.attrAt room chain slot).run s with ⟨x, s'⟩
    rw [hx] at hslot
    rw [paramVisits, List.flatMap_append, ← List.append_assoc, ← hslot, hx]
    cases x with
    | success v label children =>
      rw [run_entryParts_success hx]
      exact ih s'
    | failed fault =>
      rw [run_entryParts_failed hx]
      exact (List.append_nil _).symm

/-- The term's own call comes behind those of its parameters. -/
theorem accounts_rest (h : ∀ slot, Accounts e (inAttr slot) (e.attrAt room chain slot))
    (url : String) (method : Method) (params : List (String × Slot)) :
    Accounts e (e.termVisits room chain inAttr (.rest url method params))
      (e.termWith (e.attrAt room chain) (.rest url method params)) := by
  intro s
  have hparams := accounts_params h params s
  rw [termVisits, List.flatMap_append, ← List.append_assoc, ← hparams, List.flatMap_singleton]
  exact e.calls_visit ⟨room, chain, url, method, params, s⟩

theorem accounts_termWith (h : ∀ slot, Accounts e (inAttr slot) (e.attrAt room chain slot))
    (t : Term Slot) :
    Accounts e (e.termVisits room chain inAttr t) (e.termWith (e.attrAt room chain) t) := by
  induction t with
  | string text | number n | request key => exact Accounts.of_pure _
  | attr slot => exact h slot
  | coerce operand kind ih => exact ih.then_pure _
  | binary op lhs rhs ihl ihr => exact ihl.both ihr _
  | rest url method params => exact accounts_rest h url method params

/-- By induction on the room, since each attribute leaves one less to those it refers to. -/
theorem accounts_attrAt (e : Evaluation σ) (room : Nat) (chain : List Slot) (slot : Slot) :
    Accounts e (e.attrVisits room chain slot) (e.attrAt room chain slot) := by
  induction room using Nat.strongRecOn generalizing chain slot with
  | ind room ih =>
    intro s
    unfold attrAt attrVisits
    cases e.set.attributes[slot]? with
    | none => exact Accounts.of_pure _ s
    | some a =>
      dsimp only
      split
      · exact Accounts.of_pure _ s
      · cases room with
        | zero => exact Accounts.of_pure _ s
        | succ room =>
          have hinside := ih room (Nat.lt_succ_self room) (slot :: chain)
          exact accounts_termWith hinside a.value s

theorem accounts_term (e : Evaluation σ) (t : Term Slot) : Accounts e (e.visits t) (e.term t) :=
  accounts_termWith (e.accounts_attrAt e.depthLimit []) t

theorem accounts_condition (e : Evaluation σ) (c : Condition Slot) :
    Accounts e (e.conditionVisits c) (e.condition c) := by
  induction c with
  | not inner ih => exact ih.then_pure _
  | and lhs rhs ihl ihr | or lhs rhs ihl ihr => exact ihl.both ihr _
  | equal lhs rhs | greater lhs rhs => exact (e.accounts_term lhs).both (e.accounts_term rhs) _

mutual

theorem accounts_rule (e : Evaluation σ) (r : Rule Slot) :
    Accounts e (e.ruleVisits r) (e.rule r) := by
  cases r with
  | always decision | never => exact Accounts.of_pure _
  | when condition decision => exact (e.accounts_condition condition).then_pure _
  | branch condition onTrue onFalse =>
    refine (e.accounts_condition condition).bind fun s => ?_
    have htrue := accounts_rule e onTrue
    have hfalse := accounts_rule e onFalse
    rcases (e.condition condition).run s with ⟨x, s'⟩
    cases x with
    | failed fault => exact (List.append_nil _).symm
    | success holds label children =>
      rw [Traced.run_flatMap]
      cases holds with
      | true => exact htrue s'
      | false => exact hfalse s'
  | majority decision members | all decision members | any decision members | oneOf members =>
    exact (accounts_rules e members).then_pure _

theorem accounts_rules (e : Evaluation σ) (rs : List (Rule Slot)) :
    Accounts e (e.memberVisits rs) (e.rules rs) := by
  cases rs with
  | nil => exact Accounts.of_pure _
  | cons r rs => exact (accounts_rule e r).both (accounts_rules e rs) _

end

end Accounted

/-- A term calls with all its parameters or not at all. -/
structure AllOrNothing (e : Evaluation σ) (v : Visit σ) : Prop where
  /-- Its parameters are reduced, or one of them is the first to fail. -/
  decided : (∃ values s', Reduced (e.attrAt v.room v.chain) v.params v.start values s') ∨
    ∃ fault s', FailsFirst (e.attrAt v.room v.chain) v.params v.start fault s'
  calls : ∀ values s', Reduced (e.attrAt v.room v.chain) v.params v.start values s' →
    e.service.stopped s'.state = false →
      values.map Prod.fst = v.params.map Prod.fst ∧
      e.ownCalls v = [⟨v.url, v.method, values⟩] ∧
      (e.visit v).2.calls = s'.calls ++ [⟨v.url, v.method, values⟩] ∧
      (e.visit v).1.result =
        ((e.service.answer ⟨v.url, v.method, values⟩ s'.state).1.mapError (.call v.url)).map .string
  cancelled : ∀ values s', Reduced (e.attrAt v.room v.chain) v.params v.start values s' →
    e.service.stopped s'.state = true →
      e.ownCalls v = [] ∧ (e.visit v).2 = s' ∧
      (e.visit v).1.result = .error (.cancelled v.url)
  fails : ∀ fault s', FailsFirst (e.attrAt v.room v.chain) v.params v.start fault s' →
    e.ownCalls v = [] ∧ e.visit v = (.failed fault, s')

theorem allOrNothing (e : Evaluation σ) (v : Visit σ) : AllOrNothing e v where
  decided := reduced_or_failsFirst _ _ _
  calls values s' h hstopped := by
    obtain ⟨hresult, hsession⟩ := visit_of_reduced h
    rw [Service.run_request, hstopped] at hresult hsession
    refine ⟨h.names, ?_, ?_, hresult⟩
    · rw [ownCalls_of_reduced h, hstopped]
      rfl
    · rw [hsession]
      rfl
  cancelled values s' h hstopped := by
    obtain ⟨hresult, hsession⟩ := visit_of_reduced h
    rw [Service.run_request, hstopped] at hresult hsession
    refine ⟨?_, hsession, hresult⟩
    rw [ownCalls_of_reduced h, hstopped]
    rfl
  fails fault s' h := ⟨ownCalls_of_failsFirst h, visit_of_failsFirst h⟩

/-- The calls of a run are those of the terms that come up in it, one after another. Each of these
terms makes one call, behind those of its parameters and with all of their values, or no call. -/
theorem calls_complete_or_not_made (e : Evaluation σ) :
    (∀ t, Accounts e (e.visits t) (e.term t)) ∧
    (∀ c, Accounts e (e.conditionVisits c) (e.condition c)) ∧
    (∀ r, Accounts e (e.ruleVisits r) (e.rule r)) ∧
    Accounts e (e.memberVisits e.set.rules) e.decisions ∧
    ∀ v, AllOrNothing e v :=
  ⟨e.accounts_term, e.accounts_condition, e.accounts_rule, e.accounts_rules e.set.rules,
    e.allOrNothing⟩

/-- The role of a user is looked up with the name of the user and a fixed organisation. -/
def directory (request : Request) : Evaluation Service.Script.History where
  set :=
    ⟨[⟨"user", .request "user"⟩, ⟨"tenant", .string "acme"⟩,
      ⟨"role", .rest "http://directory/roles" .post [("name", 0), ("org", 1)]⟩],
      [.when (.equal (.attr 2) (.string "admin")) .permit]⟩
  request := request
  service := Service.Script.service ⟨[("http://directory/roles", [.ok "admin"])], none⟩
  depthLimit := defaultDepth

example : ((directory [("user", "ann")]).decisions.run ⟨[], []⟩).2.calls =
    [⟨"http://directory/roles", .post,
      [("name", .string "ann"), ("org", .string "acme")]⟩] := by
  decide

example : ((directory []).decisions.run ⟨[], []⟩).2.calls = [] := by decide

end Evaluation

end Policy
