import Policy.Proofs.Evaluation.Isolated
import Mathlib.Data.List.Infix

namespace Policy

/-! ## Requests that are served at the same time

Between two calls an evaluation goes on by itself. All that others can do to it is to have their
calls answered first. So how far it is, is told by the answers that it has heard: evaluated on them
again, a request makes the same calls again, and then the one that it waits for. -/

/-- Answers as they were heard, one by one. -/
def Service.heard : Service (List (Except CallError String)) where
  answer
    | _, [] => (.error .disabled, [])
    | _, answer :: answers => (answer, answers)
  stopped _ := false

/-- The far side and what each of the requests has heard from it. -/
structure Moment (σ : Type) where
  state : σ
  heard : List (List (Except CallError String))

namespace Server

variable {σ : Type}

/-- A request on the answers that it has heard. -/
def resumed (server : Server σ) (request : Request) (answers : List (Except CallError String)) :
    List (Traced Decision) × Session (List (Except CallError String)) :=
  (Evaluation.mk server.set request .heard server.depthLimit).decisions.run ⟨answers, []⟩

/-- The call whose answer a request waits for, if it is not done. -/
def waitsFor (server : Server σ) (request : Request) (answers : List (Except CallError String)) :
    Option Call :=
  (server.resumed request answers).2.calls[answers.length]?

/-- The far side answers the call that one of the requests waits for. No call is cancelled. -/
inductive Step (server : Server σ) (requests : List Request) : Moment σ → Moment σ → Prop
  | answer {m : Moment σ} {k : Nat} {request : Request} {answers : List (Except CallError String)}
      {call : Call} (hrequest : requests[k]? = some request) (hheard : m.heard[k]? = some answers)
      (hcall : server.waitsFor request answers = some call) :
      Step server requests m
        ⟨(server.service.answer call m.state).2,
          m.heard.set k (answers ++ [(server.service.answer call m.state).1])⟩

/-- All requests are there, and nothing was heard. -/
def start (requests : List Request) (state : σ) : Moment σ := ⟨state, requests.map fun _ => []⟩

/-- The requests were served at the same time, their calls in some order, until none of them waits
for anything. -/
structure Interleaving (server : Server σ) (requests : List Request) (state : σ) (m : Moment σ) :
    Prop where
  reached : Relation.ReflTransGen (server.Step requests) (start requests state) m
  done : ∀ (k : Nat) request answers, requests[k]? = some request → m.heard[k]? = some answers →
    server.waitsFor request answers = none

/-- What the requests come to, in the order in which they were given. -/
def decidedAt (server : Server σ) (requests : List Request) (m : Moment σ) :
    List (List (Traced Decision)) :=
  List.zipWith (fun request answers => (server.resumed request answers).1) requests m.heard

end Server

/-! ## Computations on answers that were heard -/

namespace Service

variable {σ : Type}

/-- The answers to calls that are made one after another, and the far side behind them. -/
def answers (service : Service σ) : List Call → σ → List (Except CallError String) × σ
  | [], state => ([], state)
  | call :: calls, state =>
    let (answer, state) := service.answer call state
    let (answers, state) := service.answers calls state
    (answer :: answers, state)

variable {service : Service σ}

theorem answers_append (calls later : List Call) (state : σ) :
    service.answers (calls ++ later) state =
      ((service.answers calls state).1 ++
          (service.answers later (service.answers calls state).2).1,
        (service.answers later (service.answers calls state).2).2) := by
  induction calls generalizing state with
  | nil => rfl
  | cons call calls ih => simp only [List.cons_append, answers, ih]

theorem length_answers (calls : List Call) (state : σ) :
    (service.answers calls state).1.length = calls.length := by
  induction calls generalizing state with
  | nil => rfl
  | cons call calls ih => simp only [answers, List.length_cons, ih]

theorem Stateless.answers_eq (h : service.Stateless) (calls : List Call) (state : σ) :
    (service.answers calls state).1 = calls.map fun call => (service.answer call state).1 := by
  suffices hany : ∀ other, (service.answers calls other).1 =
      calls.map fun call => (service.answer call state).1 from hany state
  intro other
  induction calls generalizing other with
  | nil => rfl
  | cons call calls ih =>
    simp only [answers, List.map_cons]
    rw [ih, h call other state]

end Service

/-- On the answers, the computation comes to `a` by these calls, one for each of the answers. On
fewer of them it makes the next one of the calls. -/
structure Hears {α : Type} (y : StateM (Session (List (Except CallError String))) α) (a : α)
    (calls : List Call) (answers : List (Except CallError String)) : Prop where
  length : answers.length = calls.length
  whole : ∀ more log, y.run ⟨answers ++ more, log⟩ = (a, ⟨more, log ++ calls⟩)
  part : ∀ heard log, heard <+: answers → heard.length < calls.length →
    ∃ others, (y.run ⟨heard, log⟩).2 = ⟨[], log ++ calls.take (heard.length + 1) ++ others⟩

namespace Hears

variable {α β : Type} {y : StateM (Session (List (Except CallError String))) α} {a : α}
  {calls : List Call} {answers : List (Except CallError String)}

theorem of_pure (a : α) : Hears (pure a) a [] [] where
  length := rfl
  whole more log := by
    rw [List.append_nil]
    rfl
  part _ _ _ hlt := absurd hlt (Nat.not_lt_zero _)

/-- Without answers, calls may be added, and no answer is left. -/
theorem goes_on (h : Hears y a calls answers) (log : List Call) :
    ∃ others, (y.run ⟨[], log⟩).2 = ⟨[], log ++ others⟩ := by
  cases calls with
  | nil =>
    obtain rfl : answers = [] := List.length_eq_zero_iff.mp h.length
    have hwhole := h.whole [] log
    exact ⟨[], congrArg Prod.snd hwhole⟩
  | cons call calls =>
    obtain ⟨others, hothers⟩ := h.part [] log List.nil_prefix (Nat.zero_lt_succ _)
    exact ⟨_, hothers.trans (congrArg _ (List.append_assoc _ _ _))⟩

/-- Answers to the first computation are heard by it alone. -/
theorem bind {next : α → StateM (Session (List (Except CallError String))) β} {b : β}
    {later : List Call} {rest : List (Except CallError String)} (h : Hears y a calls answers)
    (hn : Hears (next a) b later rest)
    (hall : ∀ a log, ∃ others, ((next a).run ⟨[], log⟩).2 = ⟨[], log ++ others⟩) :
    Hears (y >>= next) b (calls ++ later) (answers ++ rest) where
  length := by rw [List.length_append, List.length_append, h.length, hn.length]
  whole more log := by
    rw [List.append_assoc, run_bind, h.whole, hn.whole, List.append_assoc]
  part heard log hfront hlt := by
    rw [List.length_append] at hlt
    by_cases hfirst : heard.length < calls.length
    · -- The first computation lacks answers already, so that the second one hears none.
      have hwithin : heard <+: answers := by
        refine List.prefix_of_prefix_length_le hfront (List.prefix_append _ _) ?_
        rw [h.length]
        exact Nat.le_of_lt hfirst
      obtain ⟨others, hothers⟩ := h.part heard log hwithin hfirst
      obtain ⟨more, hmore⟩ :=
        hall (y.run ⟨heard, log⟩).1 (log ++ calls.take (heard.length + 1) ++ others)
      refine ⟨others ++ more, ?_⟩
      rw [run_bind, hothers, hmore, List.take_append_of_le_length hfirst,
        List.append_assoc _ others]
    · have hle : answers.length ≤ heard.length := by
        rw [h.length]
        exact Nat.le_of_not_lt hfirst
      obtain ⟨heard, rfl⟩ := List.prefix_of_prefix_length_le (List.prefix_append _ _) hfront hle
      have hrest : heard <+: rest := (List.prefix_append_right_inj _).mp hfront
      have hlength : (answers ++ heard).length + 1 = calls.length + (heard.length + 1) := by
        rw [List.length_append, h.length, Nat.add_assoc]
      have hless : heard.length < later.length := by omega
      obtain ⟨others, hothers⟩ := hn.part heard (log ++ calls) hrest hless
      refine ⟨others, ?_⟩
      rw [run_bind, h.whole, hothers, hlength, List.take_length_add_append, List.append_assoc log]

theorem of_request (call : Call) (answer : Except CallError String) :
    Hears (Service.heard.request call) (answer.mapError (.call call.url)) [call] [answer] where
  length := rfl
  whole more log := by
    rw [Service.run_request]
    rfl
  part heard log _ hlt := by
    cases heard with
    | nil =>
      refine ⟨[], ?_⟩
      rw [Service.run_request, List.append_nil]
      rfl
    | cons answer heard => exact absurd hlt (by simp)

end Hears

/-- Wherever the first computation starts, the second one comes to the same by the same calls, on the
answers that the first one gets from the service. -/
def Retold {σ α : Type} (service : Service σ) (x : StateM (Session σ) α)
    (y : StateM (Session (List (Except CallError String))) α) : Prop :=
  ∀ s, ∃ calls, Hears y (x.run s).1 calls (service.answers calls s.state).1 ∧
    (x.run s).2 = ⟨(service.answers calls s.state).2, s.calls ++ calls⟩

namespace Retold

variable {σ : Type} {service : Service σ}

theorem sequential (service : Service σ) (state : σ) :
    Sequential fun {α} (x : StateM (Session σ) α) y => Retold service x y where
  pure a s := ⟨[], .of_pure a, congrArg (Session.mk s.state) (List.append_nil s.calls).symm⟩
  bind := by
    intro α β x y next next' h hn s
    obtain ⟨calls, hfirst, hstate⟩ := h s
    obtain ⟨later, hnext, hlast⟩ := hn (x.run s).1 (x.run s).2
    have hall (a : α) (log : List Call) :
        ∃ others, ((next' a).run ⟨[], log⟩).2 = ⟨[], log ++ others⟩ := by
      obtain ⟨_, hother, -⟩ := hn a ⟨state, []⟩
      exact hother.goes_on log
    rw [hstate] at hnext hlast
    refine ⟨calls ++ later, ?_, ?_⟩
    · rw [Service.answers_append, run_bind, hstate]
      exact hfirst.bind hnext hall
    · rw [Service.answers_append, run_bind, hstate, hlast, List.append_assoc]

theorem of_request (hsteady : ∀ state, service.stopped state = false) (call : Call) :
    Retold service (service.request call) (Service.heard.request call) := by
  intro s
  refine ⟨[call], ?_, ?_⟩
  · rw [Service.run_request, hsteady]
    exact .of_request call _
  · rw [Service.run_request, hsteady]
    rfl

end Retold

/-! ## Runs -/

namespace Server

variable {σ : Type} {server : Server σ}

/-- The calls that a request makes when it is served alone. -/
def callsAlone (server : Server σ) (state : σ) (request : Request) : List Call :=
  ((server.evaluation request).decisions.run ⟨state, []⟩).2.calls

/-- All that a request hears when it is served alone. -/
def script (server : Server σ) (state : σ) (request : Request) :
    List (Except CallError String) :=
  (server.service.answers (server.callsAlone state request) state).1

theorem length_script (state : σ) (request : Request) :
    (server.script state request).length = (server.callsAlone state request).length :=
  Service.length_answers _ _

section Steady

variable (hsteady : ∀ state, server.service.stopped state = false)

include hsteady

theorem paired_heard (state : σ) (request : Request) :
    Evaluation.Paired (fun {α} (x : StateM (Session σ) α) y => Retold server.service x y)
      (server.evaluation request) ⟨server.set, request, .heard, server.depthLimit⟩
      fun _ => True where
  sequential := Retold.sequential server.service state
  attributes := rfl
  limit := rfl
  lookup _ _ _ _ := rfl
  call _ _ target _ values := Retold.of_request hsteady ⟨target.1, target.2, values⟩
  next _ _ _ _ _ _ := trivial

/-- A request on its script comes to what it comes to alone, by the same calls. -/
theorem hears_decisions (state : σ) (request : Request) :
    Hears (Evaluation.mk server.set request .heard server.depthLimit).decisions
      ((server.evaluation request).decisions.run ⟨state, []⟩).1
      (server.callsAlone state request) (server.script state request) := by
  have hpaired := server.paired_heard hsteady state request
  obtain ⟨calls, hhears, hlast⟩ :=
    hpaired.rules server.set.rules (fun _ _ => trivial) ⟨state, []⟩
  have hcalls : server.callsAlone state request = calls := congrArg Session.calls hlast
  rw [script, hcalls]
  exact hhears

/-- On a part of its script, a request waits for the call whose answer comes next there. -/
theorem waitsFor_on_script (state : σ) {request : Request}
    {answers : List (Except CallError String)}
    (hfront : answers <+: server.script state request) :
    server.waitsFor request answers = (server.callsAlone state request)[answers.length]? := by
  have hhears := hears_decisions hsteady state request
  by_cases hlt : answers.length < (server.callsAlone state request).length
  · obtain ⟨others, hothers⟩ := hhears.part answers [] hfront hlt
    have hcalls : (server.resumed request answers).2.calls =
        [] ++ (server.callsAlone state request).take (answers.length + 1) ++ others :=
      congrArg Session.calls hothers
    have htake : answers.length <
        ((server.callsAlone state request).take (answers.length + 1)).length := by
      rw [List.length_take]
      omega
    rw [waitsFor, hcalls, List.nil_append, List.getElem?_append_left htake,
      List.getElem?_take_of_lt (Nat.lt_succ_self _)]
  · have hle : (server.script state request).length ≤ answers.length := by
      rw [length_script]
      exact Nat.le_of_not_lt hlt
    have hall : answers = server.script state request := hfront.eq_of_length_le hle
    have hwhole := hhears.whole [] []
    rw [List.append_nil, List.nil_append] at hwhole
    have hcalls : (server.resumed request answers).2.calls = server.callsAlone state request := by
      rw [hall, resumed]
      exact congrArg (fun run => run.2.calls) hwhole
    rw [waitsFor, hcalls]

/-- On its whole script, a request comes to what it comes to alone. -/
theorem resumed_script (state : σ) (request : Request) :
    (server.resumed request (server.script state request)).1 =
      ((server.evaluation request).decisions.run ⟨state, []⟩).1 := by
  have hhears := hears_decisions hsteady state request
  have hwhole := hhears.whole [] []
  rw [List.append_nil] at hwhole
  exact congrArg Prod.fst hwhole

end Steady

/-- Each request has heard a part of its script. -/
structure OnScript (server : Server σ) (requests : List Request) (state : σ) (m : Moment σ) :
    Prop where
  length : m.heard.length = requests.length
  prefixes : ∀ (k : Nat) request answers, requests[k]? = some request →
    m.heard[k]? = some answers → answers <+: server.script state request

theorem onScript_start (server : Server σ) (requests : List Request) (state : σ) :
    server.OnScript requests state (start requests state) where
  length := List.length_map _
  prefixes k request answers hrequest hheard := by
    have hnil : answers = [] := by
      simp only [start, List.getElem?_map, hrequest, Option.map_some] at hheard
      exact (Option.some.inj hheard).symm
    rw [hnil]
    exact List.nil_prefix

section Stateless

variable (h : server.service.Stateless)
  (hsteady : ∀ state, server.service.stopped state = false) {state : σ} {requests : List Request}
  {m m' : Moment σ}

include h hsteady

/-- A step gives one of the requests the next answer of its script, and leaves all others alone. -/
theorem OnScript.step (hm : server.OnScript requests state m) (hstep : server.Step requests m m') :
    server.OnScript requests state m' := by
  cases hstep with
  | @answer k request answers call hrequest hheard hcall =>
    have hfront := hm.prefixes k request answers hrequest hheard
    rw [waitsFor_on_script hsteady state hfront] at hcall
    have hnext : (server.script state request)[answers.length]? =
        some (server.service.answer call state).1 := by
      rw [script, h.answers_eq, List.getElem?_map, hcall]
      rfl
    obtain ⟨hlt, hget⟩ := List.getElem?_eq_some_iff.mp hnext
    refine ⟨by rw [List.length_set, hm.length], fun j other others hother hothers => ?_⟩
    by_cases hjk : k = j
    · subst hjk
      have hk : k < m.heard.length := (List.getElem?_eq_some_iff.mp hheard).1
      rw [List.getElem?_set_self hk] at hothers
      cases hothers
      cases hrequest.symm.trans hother
      rw [h call m.state state]
      rw [← hget]
      exact List.concat_get_prefix hfront hlt
    · rw [List.getElem?_set_ne hjk] at hothers
      exact hm.prefixes j other others hother hothers

theorem onScript_of_reached
    (hm : Relation.ReflTransGen (server.Step requests) (start requests state) m) :
    server.OnScript requests state m := by
  induction hm with
  | refl => exact onScript_start server requests state
  | tail _ hstep ih => exact ih.step h hsteady hstep

/-- Where no request waits any more, each of them has heard its script to the end. -/
theorem heard_of_interleaving (hm : server.Interleaving requests state m) :
    m.heard = requests.map (server.script state) := by
  have hon := onScript_of_reached h hsteady hm.reached
  apply List.ext_getElem?
  intro k
  rw [List.getElem?_map]
  cases hrequest : requests[k]? with
  | none =>
    rw [List.getElem?_eq_none_iff] at hrequest
    exact List.getElem?_eq_none (hon.length ▸ hrequest)
  | some request =>
    obtain ⟨hk, -⟩ := List.getElem?_eq_some_iff.mp hrequest
    have hheard := List.getElem?_eq_getElem (hon.length ▸ hk : k < m.heard.length)
    have hfront := hon.prefixes k request _ hrequest hheard
    have hdone := hm.done k request _ hrequest hheard
    rw [waitsFor_on_script hsteady state hfront, List.getElem?_eq_none_iff] at hdone
    rw [hheard, Option.map_some]
    exact congrArg some (hfront.eq_of_length_le (by rwa [length_script]))

/-- In whatever order their calls are answered, requests that are served at the same time come to
what each of them comes to alone, after any calls. -/
theorem decidedAt_of_interleaving (hm : server.Interleaving requests state m) (s : Session σ) :
    server.decidedAt requests m =
      requests.map fun request => ((server.evaluation request).decisions.run s).1 := by
  rw [decidedAt, heard_of_interleaving h hsteady hm, List.zipWith_map_right, List.zipWith_self]
  refine List.map_congr_left fun request _ => ?_
  rw [resumed_script hsteady state request]
  exact alike_decisions h hsteady request ⟨state, []⟩ s

end Stateless

/-! ## The end of a run

No order of the calls keeps the requests from being done. -/

/-- One more answer for one of the requests. -/
theorem length_flatten_set {α : Type} {xss : List (List α)} {k : Nat} {xs : List α}
    (h : xss[k]? = some xs) (x : α) :
    (xss.set k (xs ++ [x])).flatten.length = xss.flatten.length + 1 := by
  induction xss generalizing k with
  | nil => cases h
  | cons first xss ih =>
    cases k with
    | zero =>
      cases h
      simp only [List.set_cons_zero, List.flatten_cons, List.length_append, List.length_singleton]
      omega
    | succ k =>
      simp only [List.set_cons_succ, List.flatten_cons, List.length_append, ih h]
      omega

theorem length_flatten_le {α : Type} {xss yss : List (List α)} (hlength : xss.length = yss.length)
    (h : ∀ (k : Nat) xs ys, xss[k]? = some xs → yss[k]? = some ys → xs.length ≤ ys.length) :
    xss.flatten.length ≤ yss.flatten.length := by
  induction xss generalizing yss with
  | nil => exact Nat.zero_le _
  | cons xs xss ih =>
    cases yss with
    | nil => cases hlength
    | cons ys yss =>
      have hfirst := h 0 xs ys rfl rfl
      have hrest := ih (Nat.succ.inj hlength) fun k => h (k + 1)
      simp only [List.flatten_cons, List.length_append]
      omega

theorem OnScript.length_heard_le {server : Server σ} {requests : List Request} {state : σ}
    {m : Moment σ} (hm : server.OnScript requests state m) :
    m.heard.flatten.length ≤ (requests.map (server.script state)).flatten.length := by
  apply length_flatten_le
  · rw [hm.length, List.length_map]
  · intro k answers script hheard hscript
    rw [List.getElem?_map] at hscript
    obtain ⟨request, hrequest, rfl⟩ := Option.map_eq_some_iff.mp hscript
    exact (hm.prefixes k request answers hrequest hheard).length_le

/-- By induction on the answers that are still to be heard, of which each step takes one. -/
theorem exists_done (h : server.service.Stateless)
    (hsteady : ∀ state, server.service.stopped state = false) {state : σ} {requests : List Request}
    (left : Nat) {m : Moment σ} (hm : server.OnScript requests state m)
    (hleft : (requests.map (server.script state)).flatten.length ≤ m.heard.flatten.length + left) :
    ∃ last, Relation.ReflTransGen (server.Step requests) m last ∧
      ∀ (k : Nat) request answers, requests[k]? = some request → last.heard[k]? = some answers →
        server.waitsFor request answers = none := by
  by_cases hdone : ∀ (k : Nat) request answers, requests[k]? = some request →
      m.heard[k]? = some answers → server.waitsFor request answers = none
  · exact ⟨m, .refl, hdone⟩
  · push Not at hdone
    obtain ⟨k, request, answers, hrequest, hheard, hwaits⟩ := hdone
    obtain ⟨call, hcall⟩ := Option.ne_none_iff_exists'.mp hwaits
    have hstep := Step.answer hrequest hheard hcall
    have hnext := hm.step h hsteady hstep
    have hmore := length_flatten_set hheard (server.service.answer call m.state).1
    have hle := hnext.length_heard_le
    dsimp only at hle
    cases left with
    | zero => omega
    | succ left =>
      obtain ⟨last, hlast, hend⟩ := exists_done h hsteady left hnext (by dsimp only; omega)
      exact ⟨last, .head hstep hlast, hend⟩

/-- Requests can be served at the same time until all are done, wherever the order of their calls
has led so far. -/
theorem exists_interleaving (h : server.service.Stateless)
    (hsteady : ∀ state, server.service.stopped state = false) {state : σ} {requests : List Request}
    {m : Moment σ} (hm : Relation.ReflTransGen (server.Step requests) (start requests state) m) :
    ∃ last, Relation.ReflTransGen (server.Step requests) m last ∧
      server.Interleaving requests state last := by
  have hon := onScript_of_reached h hsteady hm
  obtain ⟨last, hlast, hend⟩ := exists_done h hsteady _ hon (Nat.le_add_left _ _)
  exact ⟨last, hlast, hm.trans hlast, hend⟩

end Server

end Policy
