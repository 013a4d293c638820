import Policy.Proofs.Evaluation.Cancelled
import Policy.Proofs.Evaluation.Steady

namespace Policy

/-! ## Computations in which sessions have no say

Rules share the far side of their calls and the list of the calls that were made. If answers depend
on the call alone, then nothing of what rules leave behind there reaches the ones after them. -/

/-- Both computations come to the same, wherever each of them starts. -/
def Alike {σ τ α : Type} (x : StateM (Session σ) α) (y : StateM (Session τ) α) : Prop :=
  ∀ s t, (x.run s).1 = (y.run t).1

theorem Alike.sequential (σ τ : Type) :
    Sequential fun {α} (x : StateM (Session σ) α) (y : StateM (Session τ) α) => Alike x y where
  pure _ _ _ := rfl
  bind := by
    intro α β x y next next' h hn s t
    have hfirst := h s t
    have hnext := hn (x.run s).1 (x.run s).2 (y.run t).2
    rw [run_bind, run_bind, hnext, hfirst]

/-- What comes of a call, its cancellation included, depends on the call alone. -/
def Service.Constant {σ : Type} (service : Service σ) : Prop :=
  ∀ call, Alike (service.request call) (service.request call)

theorem Service.Stateless.constant {σ : Type} {service : Service σ} (h : service.Stateless)
    (hsteady : ∀ state, service.stopped state = false) : service.Constant := by
  intro call s t
  have hanswer := h call s.state t.state
  rw [run_request, run_request, hsteady, hsteady]
  exact congrArg (Except.mapError (Fault.call call.url)) hanswer

namespace Evaluation

variable {σ : Type} {service : Service σ}

/-- Evaluations of the same attributes, whatever rules stand beside them. -/
theorem paired_constant (h : service.Constant) (attributes : List (Attribute Slot))
    (rules others : List (Rule Slot)) (request : Request) (limit : Nat) :
    Paired (fun {α} (x : StateM (Session σ) α) (y : StateM (Session σ) α) => Alike x y)
      ⟨⟨attributes, rules⟩, request, service, limit⟩
      ⟨⟨attributes, others⟩, request, service, limit⟩ fun _ => True where
  sequential := Alike.sequential σ σ
  attributes := rfl
  limit := rfl
  lookup _ _ _ _ := rfl
  call _ _ target _ values := h ⟨target.1, target.2, values⟩
  next _ _ _ _ _ _ := trivial

theorem paired_attributes (h : service.Stateless)
    (hsteady : ∀ state, service.stopped state = false) (attributes : List (Attribute Slot))
    (rules others : List (Rule Slot)) (request : Request) (limit : Nat) :
    Paired (fun {α} (x : StateM (Session σ) α) (y : StateM (Session σ) α) => Alike x y)
      ⟨⟨attributes, rules⟩, request, service, limit⟩
      ⟨⟨attributes, others⟩, request, service, limit⟩ fun _ => True :=
  paired_constant (h.constant hsteady) attributes rules others request limit

/-- Each rule comes to what it comes to elsewhere, so that a list of rules does so rule by rule. -/
theorem results_rules_of_alike {e e' : Evaluation σ} (h : ∀ r, Alike (e.rule r) (e'.rule r))
    (rs : List (Rule Slot)) (s t : Session σ) :
    ((e.rules rs).run s).1 = rs.map fun r => ((e'.rule r).run t).1 := by
  induction rs generalizing s with
  | nil => rfl
  | cons r rs ih =>
    have hfirst := h r s t
    have hrest := ih ((e.rule r).run s).2
    simp only [rules, run_bind, run_pure, List.map_cons, hfirst, hrest]

end Evaluation

namespace Server

variable {σ : Type} {server : Server σ} (h : server.service.Stateless)
  (hsteady : ∀ state, server.service.stopped state = false)

include h hsteady

theorem alike_decisions (request : Request) :
    Alike (server.evaluation request).decisions (server.evaluation request).decisions := by
  have hpaired := Evaluation.paired_attributes h hsteady server.set.attributes server.set.rules
    server.set.rules request server.depthLimit
  exact hpaired.rules server.set.rules fun _ _ => trivial

/-- Nor does anything of a request reach the ones after it. -/
theorem results_serve (requests : List Request) (s t : Session σ) :
    ((server.serve requests).run s).1 =
      requests.map fun request => ((server.evaluation request).decisions.run t).1 := by
  induction requests generalizing s with
  | nil => rfl
  | cons request requests ih =>
    have hfirst := alike_decisions h hsteady request s t
    have hrest := ih ((server.evaluation request).decisions.run s).2
    simp only [serve, run_bind, run_pure, List.map_cons, hfirst, hrest]

end Server

namespace Evaluation

/-- Where answers depend on the call alone and no call is cancelled, each rule of a policy comes to
what it comes to by itself: beside any other rules, or none, and after any calls. So does each
request that is served, whatever was served before. -/
theorem rules_isolated {σ : Type} (service : Service σ) (h : service.Stateless)
    (hsteady : ∀ state, service.stopped state = false) (attributes : List (Attribute Slot))
    (limit : Nat) :
    (∀ rules others request s t,
      ((Evaluation.mk ⟨attributes, rules⟩ request service limit).decisions.run s).1 =
        rules.map fun r =>
          (((Evaluation.mk ⟨attributes, others⟩ request service limit).rule r).run t).1) ∧
    ∀ rules requests s t,
      (((Server.mk ⟨attributes, rules⟩ service limit).serve requests).run s).1 =
        requests.map fun request =>
          ((Evaluation.mk ⟨attributes, rules⟩ request service limit).decisions.run t).1 := by
  constructor
  · intro rules others request s t
    apply results_rules_of_alike
    intro r
    have hpaired := paired_attributes h hsteady attributes rules others request limit
    exact hpaired.rule r fun _ _ => trivial
  · intro rules requests s t
    let server : Server σ := ⟨⟨attributes, rules⟩, service, limit⟩
    exact server.results_serve h hsteady requests s t

/-- Answers each call with its own address, and counts the calls. -/
def echo : Service Nat where
  answer call count := (.ok call.url, count + 1)
  stopped _ := false

/-- An attribute that refers to itself, one that is asked for, and a rule for each of them. -/
def loopAndPlace : RuleSet Slot where
  attributes := [⟨"loop", .attr 0⟩, ⟨"place", .rest "http://place" .get []⟩]
  rules := [.when (.equal (.attr 0) (.string "loop")) .deny,
    .when (.equal (.attr 1) (.string "http://place")) .permit]

/-- Behind a rule that fails for a cycle, and in a later request, the second rule decides as it does
by itself. -/
theorem second_rule_isolated :
    ((Evaluation.mk loopAndPlace [] echo 3).decisions.run ⟨0, []⟩).1.map (·.result) =
        [.error (.cycle "loop"), .ok .permit] ∧
      ((Evaluation.mk loopAndPlace [] echo 3).decisions.run ⟨0, []⟩).1 =
        loopAndPlace.rules.map (fun r =>
          (((Evaluation.mk ⟨loopAndPlace.attributes, []⟩ [] echo 3).rule r).run ⟨7, []⟩).1) ∧
      (((Server.mk loopAndPlace echo 3).serve [[], [("user", "eve")]]).run ⟨0, []⟩).1 =
        [[], [("user", "eve")]].map fun request =>
          ((Evaluation.mk loopAndPlace request echo 3).decisions.run ⟨0, []⟩).1 := by
  obtain ⟨hrules, hserve⟩ :=
    rules_isolated echo (fun _ _ _ => rfl) (fun _ => rfl) loopAndPlace.attributes 3
  refine ⟨rfl, ?_, ?_⟩
  · exact hrules loopAndPlace.rules [] [] ⟨0, []⟩ ⟨7, []⟩
  · exact hserve loopAndPlace.rules [[], [("user", "eve")]] ⟨0, []⟩ ⟨0, []⟩

end Evaluation

end Policy
