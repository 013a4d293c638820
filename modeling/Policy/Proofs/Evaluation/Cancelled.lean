import Policy.Proofs.Evaluation.Paired
import Policy.Proofs.Evaluation.References
import Policy.Service.Script

namespace Policy

/-! ## Far sides with and without a flag -/

namespace Service

variable {σ : Type}

/-- The same far side, where no call is ever cancelled. -/
def steady (service : Service σ) : Service σ := { service with stopped := fun _ => false }

/-- The same far side with a flag that cancels calls. It is set while the `n`-th call is answered,
and from the start for no call at all. The state counts the calls that were answered. -/
def cancelledAfter (service : Service σ) (n : Nat) : Service (σ × Nat) where
  answer call state :=
    let (answer, next) := service.answer call state.1
    (answer, (next, state.2 + 1))
  stopped state := n ≤ state.2

end Service

/-- The same session once its calls are counted. -/
def Session.counted {σ : Type} (s : Session σ) : Session (σ × Nat) :=
  ⟨(s.state, s.calls.length), s.calls⟩

/-! ## One evaluator for many requests -/

/-- A policy with the far side that its calls go to. Requests are served one after another. -/
structure Server (σ : Type) where
  set : RuleSet Slot
  service : Service σ
  depthLimit : Nat

namespace Server

variable {σ : Type}

def evaluation (server : Server σ) (request : Request) : Evaluation σ :=
  ⟨server.set, request, server.service, server.depthLimit⟩

/-- What the rules come to on each of the requests. -/
def serve (server : Server σ) :
    List Request → Evaluation.Run σ (List (List (Traced Decision)))
  | [] => pure []
  | request :: requests => do
    let decided ← (server.evaluation request).decisions
    let rest ← serve server requests
    pure (decided :: rest)

/-- The turn of a rule on a request, after other requests and the rules in front of it. -/
def turn (server : Server σ) (requests : List Request) (request : Request)
    (rules : List (Rule Slot)) (rule : Rule Slot) : Evaluation.Run σ (Traced Decision) := do
  let _ ← server.serve requests
  let _ ← (server.evaluation request).rules rules
  (server.evaluation request).rule rule

/-- The same evaluator without a flag. -/
def steady (server : Server σ) : Server σ := ⟨server.set, server.service.steady, server.depthLimit⟩

/-- The same evaluator with a flag that is set while the `n`-th call is answered. -/
def cancelledAfter (server : Server σ) (n : Nat) : Server (σ × Nat) :=
  ⟨server.set, server.service.cancelledAfter n, server.depthLimit⟩

end Server

/-! ## Where the runs part

Up to the `n`-th call both runs do the same. From there on the one with the flag stands still. -/

/-- The second computation does what the first one does as long as that makes at most `n` calls.
Once it makes more, the second one has made the first `n` of them and is cancelled. -/
structure CutShort (n : Nat) {σ α : Type} (x : StateM (Session σ) α)
    (y : StateM (Session (σ × Nat)) α) : Prop where
  grows : ∀ s, s.calls <+: (x.run s).2.calls
  idle : ∀ s, n ≤ s.state.2 → (y.run s).2 = s
  agrees : ∀ s, (x.run s).2.calls.length ≤ n →
    y.run s.counted = ((x.run s).1, (x.run s).2.counted)
  cuts : ∀ s, s.calls.length ≤ n → n < (x.run s).2.calls.length →
    (y.run s.counted).2.calls = (x.run s).2.calls.take n ∧ n ≤ (y.run s.counted).2.state.2

namespace CutShort

variable {σ α β : Type} {n : Nat}

theorem of_pure (a : α) :
    CutShort n (pure a : StateM (Session σ) α) (pure a : StateM (Session (σ × Nat)) α) where
  grows _ := List.prefix_rfl
  idle _ _ := rfl
  agrees _ _ := rfl
  cuts _ hle hlt := absurd hlt (Nat.not_lt.mpr hle)

variable {x : StateM (Session σ) α} {y : StateM (Session (σ × Nat)) α}
  {next : α → StateM (Session σ) β} {next' : α → StateM (Session (σ × Nat)) β}

theorem bind (h : CutShort n x y) (hn : ∀ a, CutShort n (next a) (next' a)) :
    CutShort n (x >>= next) (y >>= next') := by
  refine ⟨?_, ?_, ?_, ?_⟩
  · intro s
    have hfirst := h.grows s
    have hsecond := (hn (x.run s).1).grows (x.run s).2
    exact hfirst.trans hsecond
  · intro s hflag
    have hfirst := h.idle s hflag
    rw [run_bind, hfirst]
    exact (hn (y.run s).1).idle s hflag
  · intro s hle
    rw [run_bind] at hle ⊢
    have hgrows := (hn (x.run s).1).grows (x.run s).2
    have hfirst := h.agrees s (Nat.le_trans hgrows.length_le hle)
    rw [run_bind, hfirst]
    exact (hn (x.run s).1).agrees (x.run s).2 hle
  · intro s hle hlt
    rw [run_bind] at hlt ⊢
    rw [run_bind]
    by_cases hmid : (x.run s).2.calls.length ≤ n
    · have hfirst := h.agrees s hmid
      rw [hfirst]
      exact (hn (x.run s).1).cuts (x.run s).2 hmid hlt
    · -- The first computation was cut short already, so that the second one adds nothing.
      obtain ⟨hcalls, hflag⟩ := h.cuts s hle (Nat.lt_of_not_le hmid)
      have hidle := (hn (y.run s.counted).1).idle _ hflag
      obtain ⟨more, hmore⟩ := (hn (x.run s).1).grows (x.run s).2
      rw [hidle, ← hmore, List.take_append_of_le_length (Nat.le_of_not_le hmid)]
      exact ⟨hcalls, hflag⟩

theorem sequential (n : Nat) :
    Sequential fun {α} (x : StateM (Session σ) α) (y : StateM (Session (σ × Nat)) α) =>
      CutShort n x y :=
  ⟨of_pure, bind⟩

/-- The one step at which the runs can part. -/
theorem of_request (service : Service σ) (n : Nat) (call : Call) :
    CutShort n (service.steady.request call) ((service.cancelledAfter n).request call) := by
  have hsteady (s : Session σ) : ((service.steady.request call).run s).2.calls =
      s.calls ++ [call] := by
    rw [Service.run_request]
    rfl
  refine ⟨?_, ?_, ?_, ?_⟩
  · intro s
    rw [hsteady]
    exact List.prefix_append _ _
  · intro s hflag
    have hstopped : (service.cancelledAfter n).stopped s.state = true := decide_eq_true hflag
    rw [Service.run_request, if_pos hstopped]
  · intro s hle
    rw [hsteady, List.length_append, List.length_singleton] at hle
    have hgoes : ¬ (service.cancelledAfter n).stopped s.counted.state = true := by
      have hlt : ¬ n ≤ s.calls.length := by omega
      simpa [Service.cancelledAfter, Session.counted] using hlt
    rw [Service.run_request, Service.run_request, if_neg hgoes]
    simp [Service.steady, Service.cancelledAfter, Session.counted]
  · intro s hle hlt
    rw [hsteady, List.length_append, List.length_singleton] at hlt
    have hfull : n ≤ s.calls.length := by omega
    have hflag : n ≤ s.counted.state.2 := hfull
    have hstopped : (service.cancelledAfter n).stopped s.counted.state = true :=
      decide_eq_true hflag
    rw [Service.run_request, if_pos hstopped, hsteady, List.take_append_of_le_length hfull,
      List.take_of_length_le hle]
    exact ⟨rfl, hflag⟩

end CutShort

/-! ## Runs -/

namespace Server

variable {σ : Type} (server : Server σ) (n : Nat)

theorem paired (request : Request) :
    Evaluation.Paired (fun {α} (x : StateM (Session σ) α) y => CutShort n x y)
      (server.steady.evaluation request) ((server.cancelledAfter n).evaluation request)
      fun _ => True where
  sequential := CutShort.sequential n
  attributes := rfl
  limit := rfl
  lookup _ _ _ _ := rfl
  call _ _ _ _ _ := CutShort.of_request server.service n _
  next _ _ _ _ _ _ := trivial

theorem cutShort_rules (request : Request) (rules : List (Rule Slot)) :
    CutShort n ((server.steady.evaluation request).rules rules)
      (((server.cancelledAfter n).evaluation request).rules rules) :=
  (server.paired n request).rules rules fun _ _ => trivial

theorem cutShort_serve (requests : List Request) :
    CutShort n (server.steady.serve requests) ((server.cancelledAfter n).serve requests) := by
  induction requests with
  | nil => exact CutShort.of_pure _
  | cons request requests ih =>
    have hfirst := server.cutShort_rules n request server.set.rules
    exact hfirst.bind fun decided => ih.bind fun rest => CutShort.of_pure _

/-! ## Results along the way -/

variable {server n} {requests : List Request} {request : Request}

theorem cutShort_turn (server : Server σ) (n : Nat) (requests : List Request) (request : Request)
    (rules : List (Rule Slot)) (rule : Rule Slot) :
    CutShort n (server.steady.turn requests request rules rule)
      ((server.cancelledAfter n).turn requests request rules rule) := by
  have hserve := server.cutShort_serve n requests
  have hrules := server.cutShort_rules n request rules
  have hrule := (server.paired n request).rule rule fun _ _ => trivial
  exact hserve.bind fun _ => hrules.bind fun _ => hrule

/-- What a rule comes to among the rules of a request. -/
theorem getElem_rules (e : Evaluation σ) {rules : List (Rule Slot)} {j : Nat} {r : Rule Slot}
    (hr : rules[j]? = some r) (s : Session σ) :
    ((e.rules rules).run s).1[j]? =
      some ((e.rule r).run ((e.rules (rules.take j)).run s).2).1 := by
  induction rules generalizing j s with
  | nil => cases hr
  | cons rule rules ih =>
    cases j with
    | zero =>
      cases hr
      rfl
    | succ j =>
      have hrest := ih hr ((e.rule rule).run s).2
      simp only [Evaluation.rules, run_bind, run_pure, List.take_succ_cons,
        List.getElem?_cons_succ]
      exact hrest

/-- What a request comes to among those that are served. -/
theorem getElem_serve (server : Server σ) {i : Nat} (hq : requests[i]? = some request)
    (s : Session σ) :
    ((server.serve requests).run s).1[i]? =
      some ((server.evaluation request).decisions.run
        ((server.serve (requests.take i)).run s).2).1 := by
  induction requests generalizing i s with
  | nil => cases hq
  | cons first requests ih =>
    cases i with
    | zero =>
      cases hq
      rfl
    | succ i =>
      have hrest := ih hq ((server.evaluation first).decisions.run s).2
      simp only [serve, run_bind, run_pure, List.take_succ_cons, List.getElem?_cons_succ]
      exact hrest

/-- The result of a rule on a request is what it comes to when it has its turn. -/
theorem result_serve (server : Server σ) {i j : Nat} {r : Rule Slot}
    (hq : requests[i]? = some request) (hr : server.set.rules[j]? = some r) (s : Session σ) :
    ((server.serve requests).run s).1[i]?.bind (·[j]?) =
      some ((server.turn (requests.take i) request (server.set.rules.take j) r).run s).1 := by
  rw [server.getElem_serve hq, Option.bind_some]
  exact getElem_rules (server.evaluation request) hr _

theorem calls_serve (server : Server σ) (n : Nat) (requests : List Request) (state : σ) :
    (((server.cancelledAfter n).serve requests).run ⟨(state, 0), []⟩).2.calls =
      ((server.steady.serve requests).run ⟨state, []⟩).2.calls.take n := by
  have h := server.cutShort_serve n requests
  by_cases hle : ((server.steady.serve requests).run ⟨state, []⟩).2.calls.length ≤ n
  · have hagrees := h.agrees ⟨state, []⟩ hle
    rw [List.take_of_length_le hle]
    exact congrArg (fun run => run.2.calls) hagrees
  · exact (h.cuts ⟨state, []⟩ (Nat.zero_le n) (Nat.lt_of_not_le hle)).1

/-- Once `n` calls were made, the flag is set. -/
theorem stopped_turn (server : Server σ) (n : Nat) (requests : List Request) (request : Request)
    (rules : List (Rule Slot)) (rule : Rule Slot) (state : σ)
    (hle : n ≤ ((server.steady.turn requests request rules rule).run ⟨state, []⟩).2.calls.length) :
    (server.cancelledAfter n).service.stopped
      (((server.cancelledAfter n).turn requests request rules rule).run
        ⟨(state, 0), []⟩).2.state := by
  have h := server.cutShort_turn n requests request rules rule
  apply decide_eq_true
  by_cases hlast :
      ((server.steady.turn requests request rules rule).run ⟨state, []⟩).2.calls.length ≤ n
  · have hagrees := h.agrees ⟨state, []⟩ hlast
    have hcount := congrArg (fun run => run.2.state.2) hagrees
    exact Nat.le_trans hle (Nat.le_of_eq hcount.symm)
  · exact (h.cuts ⟨state, []⟩ (Nat.zero_le n) (Nat.lt_of_not_le hlast)).2

/-- A rule whose turn is over after at most `n` calls comes to the same with a flag as without. -/
theorem result_cancelledAfter (server : Server σ) (n : Nat) (state : σ) {i j : Nat} {r : Rule Slot}
    (hq : requests[i]? = some request) (hr : server.set.rules[j]? = some r)
    (hle : ((server.steady.turn (requests.take i) request (server.set.rules.take j) r).run
      ⟨state, []⟩).2.calls.length ≤ n) :
    (((server.cancelledAfter n).serve requests).run ⟨(state, 0), []⟩).1[i]?.bind (·[j]?) =
      some ((server.steady.turn (requests.take i) request (server.set.rules.take j) r).run
        ⟨state, []⟩).1 := by
  have h := server.cutShort_turn n (requests.take i) request (server.set.rules.take j) r
  have hagrees := h.agrees ⟨state, []⟩ hle
  rw [(server.cancelledAfter n).result_serve hq hr]
  exact congrArg (fun run => some run.1) hagrees

end Server

/-! ## Once the flag is set -/

/-- No call stands in the term, nor in an attribute that it leads to. -/
def RuleSet.CallFree (set : RuleSet Slot) (t : Term Slot) : Prop :=
  t.targets = [] ∧ ∀ slot a, set.LeadsTo t slot → set.attributes[slot]? = some a →
    a.value.targets = []

theorem RuleSet.CallFree.next {set : RuleSet Slot} {t : Term Slot} (h : set.CallFree t)
    {slot : Slot} (hslot : slot ∈ t.refs) {a : Attribute Slot}
    (ha : set.attributes[slot]? = some a) : set.CallFree a.value := by
  refine ⟨h.2 slot a ⟨slot, hslot, .refl⟩ ha, ?_⟩
  rintro last b ⟨first, hfirst, hpath⟩ hb
  have hstep : set.Refers slot first := ⟨a, ha, hfirst⟩
  exact h.2 last b ⟨slot, hslot, .head hstep hpath⟩ hb

/-- Both computations come to the same at once, whatever the session. -/
def Settled {σ τ α : Type} (x : StateM (Session σ) α) (y : StateM (Session τ) α) : Prop :=
  ∃ a, x = pure a ∧ y = pure a

theorem Settled.sequential (σ τ : Type) :
    Sequential fun {α} (x : StateM (Session σ) α) (y : StateM (Session τ) α) => Settled x y where
  pure a := ⟨a, rfl, rfl⟩
  bind := by
    rintro α β x y next next' ⟨a, rfl, rfl⟩ hn
    exact hn a

theorem Evaluation.call_of_stopped {σ : Type} {e : Evaluation σ} {s : Session σ}
    (h : e.service.stopped s.state) (url : String) (method : Method)
    (values : List (String × Value)) :
    (e.call url method values).run s = (.failed (.cancelled url), s) := by
  rw [call, run_bind, Service.run_request, if_pos h]
  rfl

namespace Server

variable {σ : Type}

/-- From this session on nothing is called any more. A REST term whose parameters have values is
refused for its own address, wherever it stands, and terms without calls have the values that they
have without a flag. -/
structure Silent (server : Server σ) (n : Nat) (s : Session (σ × Nat)) : Prop where
  serve : ∀ requests, (((server.cancelledAfter n).serve requests).run s).2 = s
  rest : ∀ request room chain url method params values,
    let e := (server.cancelledAfter n).evaluation request
    ((Traced.traverse (e.attrAt room chain) "params" params).run s).1.result = .ok values →
      (e.termWith (e.attrAt room chain) (.rest url method params)).run s =
        (.failed (.cancelled url), s)
  callFree : ∀ request room chain t, server.set.CallFree t → ∀ s' : Session σ,
    let e := (server.cancelledAfter n).evaluation request
    let e' := server.steady.evaluation request
    ((e.termWith (e.attrAt room chain) t).run s).1 =
      ((e'.termWith (e'.attrAt room chain) t).run s').1

variable {server : Server σ} {n : Nat}

theorem rest_of_stopped {s : Session (σ × Nat)}
    (hflag : (server.cancelledAfter n).service.stopped s.state) (request : Request) (room : Nat)
    (chain : List Slot) (url : String) (method : Method) (params : List (String × Slot))
    (values : List (String × Value)) :
    let e := (server.cancelledAfter n).evaluation request
    ((Traced.traverse (e.attrAt room chain) "params" params).run s).1.result = .ok values →
      (e.termWith (e.attrAt room chain) (.rest url method params)).run s =
        (.failed (.cancelled url), s) := by
  intro e hvalues
  have hattr (slot : Slot) : CutShort n
      ((server.steady.evaluation request).attrAt room chain slot) (e.attrAt room chain slot) :=
    (server.paired n request).attrAt room chain slot fun _ _ => trivial
  have hparams := (CutShort.sequential n).traverse "params" fun param (_ : param ∈ params) =>
    hattr param.2
  have hidle := hparams.idle s (of_decide_eq_true hflag)
  rw [Traced.result_eq_parts] at hvalues
  rw [Evaluation.termWith, run_bind, Traced.run_flatMap, hidle]
  cases hparts : ((Traced.traverse (e.attrAt room chain) "params" params).run s).1.parts with
  | error fault =>
    rw [hparts] at hvalues
    cases hvalues
  | ok part =>
    have hcall : (e.call url method part.1).run s = (.failed (.cancelled url), s) :=
      Evaluation.call_of_stopped hflag url method part.1
    dsimp only
    rw [hcall]
    rfl

theorem paired_callFree (server : Server σ) (n : Nat) (request : Request) :
    Evaluation.Paired (fun {α} (x : StateM (Session σ) α) y => Settled x y)
      (server.steady.evaluation request) ((server.cancelledAfter n).evaluation request)
      server.set.CallFree where
  sequential := Settled.sequential σ (σ × Nat)
  attributes := rfl
  limit := rfl
  lookup _ _ _ _ := rfl
  call t ht target htarget := by
    rw [ht.1] at htarget
    cases htarget
  next t ht slot hslot a ha := ht.next hslot ha

theorem silent_of_stopped {s : Session (σ × Nat)}
    (hflag : (server.cancelledAfter n).service.stopped s.state) : server.Silent n s where
  serve requests := (server.cutShort_serve n requests).idle s (of_decide_eq_true hflag)
  rest := rest_of_stopped hflag
  callFree request room chain t ht s' := by
    obtain ⟨x, hfree, hcut⟩ := (server.paired_callFree n request).termAt room chain ht
    simp only [hfree, hcut, run_pure]

/-- Cancellation cuts the calls of a run short and changes nothing before that. The calls are the
first `n` of those without a flag. A rule whose turn is over after at most `n` calls comes to the
same, and after the `n`-th call the flag is set. Once it is set, nothing is called any more. -/
theorem cancellation_cuts_short (server : Server σ) (n : Nat) (requests : List Request)
    (state : σ) :
    let free := (server.steady.serve requests).run ⟨state, []⟩
    let cut := ((server.cancelledAfter n).serve requests).run ⟨(state, 0), []⟩
    cut.2.calls = free.2.calls.take n ∧
    (∀ i j request rule, requests[i]? = some request → server.set.rules[j]? = some rule →
      let before := requests.take i
      let front := server.set.rules.take j
      let freeTurn := (server.steady.turn before request front rule).run ⟨state, []⟩
      let cutTurn := ((server.cancelledAfter n).turn before request front rule).run ⟨(state, 0), []⟩
      free.1[i]?.bind (·[j]?) = some freeTurn.1 ∧
      (freeTurn.2.calls.length ≤ n → cut.1[i]?.bind (·[j]?) = some freeTurn.1) ∧
      (n ≤ freeTurn.2.calls.length →
        (server.cancelledAfter n).service.stopped cutTurn.2.state)) ∧
    ∀ s, (server.cancelledAfter n).service.stopped s.state → server.Silent n s := by
  refine ⟨server.calls_serve n requests state, ?_, fun s => silent_of_stopped⟩
  intro i j request rule hq hr
  refine ⟨server.steady.result_serve hq hr _, server.result_cancelledAfter n state hq hr, ?_⟩
  exact server.stopped_turn n (requests.take i) request (server.set.rules.take j) rule state

/-- Users with a role may read, and those on the rota may write as well. -/
def staff : Server Service.Script.History where
  set :=
    ⟨[⟨"user", .request "user"⟩, ⟨"role", .rest "http://directory/roles" .get [("name", 0)]⟩],
      [.when (.equal (.attr 1) (.string "reader")) .permit,
        .when (.and (.equal (.attr 1) (.string "reader"))
          (.equal (.rest "http://directory/rota" .get []) (.attr 0))) .permit]⟩
  service := Service.Script.service
    ⟨[("http://directory/roles", [.ok "reader"]), ("http://directory/rota", [.ok "ann"])], none⟩
  depthLimit := Evaluation.defaultDepth

/-- Without a flag the two requests make six calls. After the second one, only the first rule of the
first request is done. -/
theorem staff_cancelled_after_two :
    ((staff.steady.serve [[("user", "ann")], [("user", "bob")]]).run ⟨[], []⟩).2.calls.length = 6 ∧
    (((staff.cancelledAfter 2).serve [[("user", "ann")], [("user", "bob")]]).run
      ⟨([], 0), []⟩).2.calls =
      [⟨"http://directory/roles", .get, [("name", .string "ann")]⟩,
        ⟨"http://directory/roles", .get, [("name", .string "ann")]⟩] ∧
    (((staff.cancelledAfter 2).serve [[("user", "ann")], [("user", "bob")]]).run
      ⟨([], 0), []⟩).1[0]?.bind (·[0]?) =
      some ((staff.steady.turn [] [("user", "ann")] []
        (.when (.equal (.attr 1) (.string "reader")) .permit)).run ⟨[], []⟩).1 ∧
    (((staff.cancelledAfter 2).evaluation [("user", "ann")]).term
      (.rest "http://directory/rota" .get [])).run ⟨([], 2), []⟩ =
      (.failed (.cancelled "http://directory/rota"), ⟨([], 2), []⟩) := by
  have h := cancellation_cuts_short staff 2 [[("user", "ann")], [("user", "bob")]] []
  obtain ⟨hcalls, hresults, hsilent⟩ := h
  refine ⟨by rfl, hcalls.trans (by rfl), ?_, ?_⟩
  · exact (hresults 0 0 _ _ rfl rfl).2.1 (by decide)
  · exact (hsilent ⟨([], 2), []⟩ (by decide)).rest _ _ _ _ _ _ [] (by rfl)

end Server

end Policy
