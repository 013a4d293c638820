import Policy.Proofs.Command.Lines
import Policy.Proofs.Evaluation.Interleaved
import Mathlib.Data.List.Forall2

namespace Policy

/-! ## Far sides of commands -/

/-- What comes back over a network depends on the call alone. -/
theorem Http.stateless_service [Wording] (userAgent : String) (network : Http.Network) :
    (Http.service userAgent network).Stateless := by
  intro call s t
  show (Http.answer userAgent network call s).1 = (Http.answer userAgent network call t).1
  unfold Http.answer
  split
  · rfl
  · split
    · rfl
    · split
      · rfl
      · rfl

theorem Service.stateless_disabled : Service.disabled.Stateless := fun _ _ _ => rfl

namespace Command

/-! ## Evaluations of batches -/

/-- What is evaluated and reported on, apart from the requests. -/
structure Setup where
  settings : Settings
  set : RuleSet Slot
  params : List String
  offline : Bool
  failOnError : Bool
  format : Format
  quiet : Bool

/-- The command line evaluates what the document holds, and reports on it. -/
structure Invocation.Evaluates (i : Invocation) (disk : Disk) (u : Setup) (doc : Json) : Prop where
  files : ∃ policy file, i.task = .eval policy file u.params u.offline u.failOnError ∧
    loadPolicy disk policy = .ok u.set ∧ loadJson disk file = .ok doc
  settings : loadSettings disk i.config = .ok u.settings
  format : i.format = u.format
  quiet : i.quiet = u.quiet

namespace Setup

def far (u : Setup) (network : Http.Network) : Option Http.Network :=
  if u.offline || !u.settings.restEnabled then none else some network

/-- What the rules come to on a request that is evaluated alone. -/
def alone [Wording] (u : Setup) (network : Http.Network) (request : Request) : Decided :=
  decidedOver (u.far network) u.settings.userAgent u.set request

/-- What the rules come to on requests that are evaluated at the same time, their calls in some
order. -/
def Together [Wording] (u : Setup) (network : Http.Network) (requests : List Request)
    (decided : List Decided) : Prop :=
  match u.far network with
  | none =>
    let server : Server Unit := ⟨u.set, .disabled, Evaluation.defaultDepth⟩
    ∃ m, server.Interleaving requests () m ∧ decided = server.decidedAt requests m
  | some network =>
    let service := Http.service u.settings.userAgent network
    let server : Server (List Http.Request) := ⟨u.set, service, Evaluation.defaultDepth⟩
    ∃ m, server.Interleaving requests [] m ∧ decided = server.decidedAt requests m

variable {u : Setup} {network : Http.Network} {requests : List Request} {decided : List Decided}

theorem eq_alone_of_together [Wording] (h : u.Together network requests decided) :
    decided = requests.map (u.alone network) := by
  have halone : u.alone network = decidedOver (u.far network) u.settings.userAgent u.set := rfl
  unfold Together at h
  rw [halone]
  split at h
  · next hfar =>
    obtain ⟨m, hm, rfl⟩ := h
    rw [hfar]
    exact Server.decidedAt_of_interleaving Service.stateless_disabled (fun _ => rfl) hm ⟨(), []⟩
  · next far hfar =>
    obtain ⟨m, hm, rfl⟩ := h
    rw [hfar]
    exact Server.decidedAt_of_interleaving (Http.stateless_service _ _) (fun _ => rfl) hm ⟨[], []⟩

theorem together_alone [Wording] (u : Setup) (network : Http.Network) (requests : List Request) :
    u.Together network requests (requests.map (u.alone network)) := by
  suffices h : ∃ decided, u.Together network requests decided by
    obtain ⟨decided, h⟩ := h
    rwa [← eq_alone_of_together h]
  unfold Together
  cases u.far network with
  | none =>
    let server : Server Unit := ⟨u.set, .disabled, Evaluation.defaultDepth⟩
    have hstart : Relation.ReflTransGen (server.Step requests) (Server.start requests ()) _ := .refl
    obtain ⟨m, -, hm⟩ :=
      Server.exists_interleaving Service.stateless_disabled (fun _ => rfl) hstart
    exact ⟨_, m, hm, rfl⟩
  | some far =>
    let service := Http.service u.settings.userAgent far
    let server : Server (List Http.Request) := ⟨u.set, service, Evaluation.defaultDepth⟩
    have hstart : Relation.ReflTransGen (server.Step requests) (Server.start requests []) _ := .refl
    obtain ⟨m, -, hm⟩ :=
      Server.exists_interleaving (Http.stateless_service _ _) (fun _ => rfl) hstart
    exact ⟨_, m, hm, rfl⟩

end Setup

/-- One request after the other comes to what it comes to alone. -/
theorem decideAll_eq {σ : Type} {service : Service σ} (h : service.Stateless)
    (hsteady : ∀ state, service.stopped state = false) (set : RuleSet Slot) (state : σ)
    (requests : List Request) (s : Session σ) :
    (decideAll service set state requests).1 = requests.map fun request =>
      ((Evaluation.mk set request service Evaluation.defaultDepth).decisions.run s).1 := by
  induction requests generalizing state with
  | nil => rfl
  | cons request requests ih =>
    let server : Server σ := ⟨set, service, Evaluation.defaultDepth⟩
    have hfirst : ((server.evaluation request).decisions.run ⟨state, []⟩).1 = _ :=
      Server.alike_decisions h hsteady request ⟨state, []⟩ s
    have hrest := ih ((server.evaluation request).decisions.run ⟨state, []⟩).2.state
    rw [List.map_cons, ← hrest]
    exact congrArg (· :: _) hfirst

/-! ## Request objects -/

/-- The place of a request in its file matters for what is said about a fault only. -/
theorem readRequest_of_ok {path : Document.Path} (other : Document.Path) {doc : Json}
    {request : Request} (h : readRequest path doc = .ok request) :
    readRequest other doc = .ok request := by
  unfold readRequest at h ⊢
  split at h
  · next members =>
    induction members generalizing request with
    | nil => exact h
    | cons member members ih =>
      rw [List.mapM_cons] at h ⊢
      obtain ⟨param, hparam, h⟩ := bind_ok_iff.mp h
      obtain ⟨params, hparams, h⟩ := bind_ok_iff.mp h
      have hfirst : readParameter other member = .ok param := by
        unfold readParameter at hparam ⊢
        split at hparam
        · exact hparam
        · cases hparam
      rw [hfirst, ok_bind, ih hparams, ok_bind]
      exact h
  · cases h

theorem readBatch_of_ok {docs : List Json} {requests : List Request}
    (h : List.Forall₂ (fun doc request => readRequest .start doc = .ok request) docs requests)
    (index : Nat) : readBatch index docs = .ok requests := by
  induction h generalizing index with
  | nil => rfl
  | cons hfirst _ ih =>
    rw [readBatch, readRequest_of_ok _ hfirst, ok_bind, ih, ok_bind]
    rfl

theorem ofJson_array {docs : List Json} {requests : List Request}
    (h : List.Forall₂ (fun doc request => readRequest .start doc = .ok request) docs requests) :
    Requests.ofJson (.array docs) = .ok (.batch requests) := by
  rw [Requests.ofJson, readBatch_of_ok h]
  rfl

theorem ofJson_request {doc : Json} {request : Request}
    (h : readRequest .start doc = .ok request) :
    Requests.ofJson doc = .ok (.single request) := by
  cases doc with
  | object members =>
    rw [Requests.ofJson, h]
    · rfl
    · exact fun _ => Json.noConfusion
  | _ => cases h

/-! ## Reports on batches -/

/-- What is printed for the rules of a request of a batch. -/
def Report.indented [Wording] (xs : Decided) : String :=
  String.join ((Report.ruleLines 1 xs).map fun entry => "  " ++ entry ++ "\n")

theorem Report.lines_append (texts others : List String) :
    Report.lines (texts ++ others) = Report.lines texts ++ Report.lines others := by
  simp [Report.lines]

theorem Report.lines_batchLines [Wording] (number : Nat) (decided : List Decided) :
    Report.lines (Report.batchLines number decided) = String.join (decided.mapIdx fun k xs =>
      "request " ++ Decimal.text (number + k : Nat) ++ ":\n" ++ Report.indented xs) := by
  induction decided generalizing number with
  | nil => rfl
  | cons xs decided ih =>
    have hindented : Report.lines ((Report.ruleLines 1 xs).map ("  " ++ ·)) =
        Report.indented xs := by
      rw [Report.lines, Report.indented, List.map_map]
      rfl
    have hheading : "request " ++ Decimal.text number ++ ":" ++ "\n" =
        "request " ++ Decimal.text number ++ ":\n" := by
      rw [String.append_assoc]
      rfl
    rw [Report.batchLines, Report.lines_cons, Report.lines_append, hindented, hheading, ih,
      List.mapIdx_cons, String.join_cons]
    simp only [Nat.add_zero, Nat.add_assoc, Nat.add_comm 1, String.append_assoc]

/-! ## Runs on batches -/

section Run

variable {i : Invocation} {disk : Disk} {network : Http.Network} {u : Setup} {doc : Json}
  {overrides : List (String × String)} {requests : Requests}

theorem exists_evaluated [Wording] (i : Invocation) (far : Option Http.Network) (userAgent : String)
    (failOnError : Bool) (set : RuleSet Slot) (requests : Requests) :
    ∃ received, i.evaluate far userAgent failOnError set requests =
      i.evaluated failOnError requests (requests.toList.map (decidedOver far userAgent set))
        received := by
  cases far with
  | none =>
    have hall := decideAll_eq Service.stateless_disabled (fun _ => rfl) set () requests.toList
      ⟨(), []⟩
    exact ⟨[], congrArg (i.evaluated failOnError requests · []) hall⟩
  | some far =>
    have hall := decideAll_eq (Http.stateless_service userAgent far) (fun _ => rfl) set []
      requests.toList ⟨[], []⟩
    exact ⟨_, congrArg (i.evaluated failOnError requests · _) hall⟩

theorem Invocation.Evaluates.exists_run [Wording] (h : i.Evaluates disk u doc)
    (hparams : readParams u.params = .ok overrides) (hdoc : Requests.ofJson doc = .ok requests)
    (network : Http.Network) :
    ∃ received, i.run disk network =
      i.evaluated u.failOnError (requests.map (overlay overrides))
        ((requests.map (overlay overrides)).toList.map (u.alone network)) received := by
  obtain ⟨policy, file, htask, hset, hjson⟩ := h.files
  have hload : loadRequests disk file u.params = .ok (requests.map (overlay overrides)) := by
    simp only [loadRequests, hparams, hjson, ok_bind, hdoc]
  have hrun : i.run disk network = i.evaluate (u.far network) u.settings.userAgent u.failOnError
      u.set (requests.map (overlay overrides)) := by
    simp only [Invocation.run, h.settings, ok_bind, Invocation.perform, htask, hset, hload]
    rfl
  rw [hrun]
  exact exists_evaluated _ _ _ _ _ _

end Run

/-- The outcome reports what the rules came to on one request. -/
structure Setup.Reports [Wording] (u : Setup) (out : Outcome) (solo : Decided) : Prop where
  text : u.quiet = false → u.format = .text → out.stdout = Report.lines (Report.ruleLines 1 solo)
  json : u.quiet = false → u.format = .json →
    out.stdout = (Report.requestDocument solo).pretty ++ "\n"
  status : out.status = 1 ↔ u.failOnError = true ∧ solo.any (!·.isSuccess) = true

theorem Invocation.status_evaluated [Wording] (i : Invocation) (failOnError : Bool) (requests : Requests)
    (decided : List Decided) (received : List Http.Request) :
    (i.evaluated failOnError requests decided received).status = 1 ↔
      failOnError = true ∧ decided.any (·.any (!·.isSuccess)) = true := by
  rw [evaluated, ← Bool.and_eq_true]
  split
  · next h => exact ⟨fun _ => h, fun _ => rfl⟩
  · next h => exact ⟨fun hone => absurd hone Nat.zero_ne_one, fun hboth => absurd hboth h⟩

section Run

variable {i : Invocation} {disk : Disk} {u : Setup} {doc : Json}
  {overrides : List (String × String)} {request : Request}

theorem Invocation.Evaluates.reports [Wording] (h : i.Evaluates disk u doc)
    (hparams : readParams u.params = .ok overrides)
    (hdoc : readRequest .start doc = .ok request) (network : Http.Network) :
    u.Reports (i.run disk network) (u.alone network (overlay overrides request)) := by
  obtain ⟨received, hrun⟩ := h.exists_run hparams (ofJson_request hdoc) network
  rw [hrun]
  refine ⟨fun hloud htext => ?_, fun hloud hjson => ?_, ?_⟩
  · exact Invocation.stdout_evaluated (h.format.trans htext) (h.quiet.trans hloud) _ _ _ _
  · have hquiet := h.quiet.trans hloud
    have hformat := h.format.trans hjson
    simp only [Invocation.evaluated, hquiet, hformat]
    rfl
  · rw [Invocation.status_evaluated]
    simp [Requests.map, Requests.toList]

/-- Each command line on one of the requests reports what that request comes to alone. -/
theorem forall_reports [Wording] {docs : List Json} {requests : List Request}
    {singles : List (Invocation × Disk)} (hparams : readParams u.params = .ok overrides)
    (hdocs : List.Forall₂ (fun doc request => readRequest .start doc = .ok request) docs requests)
    (hsingles : List.Forall₂ (fun doc single => single.1.Evaluates single.2 u doc) docs singles)
    (network : Http.Network) :
    List.Forall₂ u.Reports (singles.map fun single => single.1.run single.2 network)
      ((requests.map (overlay overrides)).map (u.alone network)) := by
  induction hdocs generalizing singles with
  | nil =>
    cases hsingles
    exact .nil
  | cons hdoc _ ih =>
    cases hsingles with
    | cons hsingle hsingles => exact .cons (hsingle.reports hparams hdoc network) (ih hsingles)

end Run

theorem map_eq_map_of_forall {α β γ : Type} {R : α → β → Prop} {f : α → γ} {g : β → γ}
    {xs : List α} {ys : List β} (h : List.Forall₂ R xs ys) (hfg : ∀ x y, R x y → f x = g y) :
    xs.map f = ys.map g := by
  rw [← List.forall₂_eq_eq_eq, List.forall₂_map_left_iff, List.forall₂_map_right_iff]
  exact h.imp hfg

/-- A batch is reported as the list of what is reported on each of its requests alone, in the order
of the batch, in whatever order the calls of the requests are answered: the documents are the items
of a list, and the entries of a text stand behind a heading for the request. It is refused for a
rule that fails exactly where one of the requests is refused alone. -/
theorem batch_reports_singles [Wording] (i : Invocation) (disk : Disk) (network : Http.Network) (u : Setup)
    (docs : List Json) (requests : List Request) (overrides : List (String × String))
    (singles : List (Invocation × Disk)) (hparams : readParams u.params = .ok overrides)
    (hdocs : List.Forall₂ (fun doc request => readRequest .start doc = .ok request) docs requests)
    (hbatch : i.Evaluates disk u (.array docs))
    (hsingles : List.Forall₂ (fun doc single => single.1.Evaluates single.2 u doc) docs singles) :
    let all := requests.map (overlay overrides)
    let solos := all.map (u.alone network)
    let alone := singles.map fun single => single.1.run single.2 network
    (∃ decided received, u.Together network all decided ∧
      i.run disk network = i.evaluated u.failOnError (.batch all) decided received) ∧
    ∀ decided received, u.Together network all decided →
      let out := i.evaluated u.failOnError (.batch all) decided received
      (u.quiet = false → u.format = .json →
        alone.map (·.stdout) =
          solos.map (fun solo => (Report.requestDocument solo).pretty ++ "\n") ∧
        out.stdout = (Json.array (solos.map Report.requestDocument)).pretty ++ "\n") ∧
      (u.quiet = false → u.format = .text →
        alone.map (·.stdout) = solos.map (fun solo =>
          String.join ((Report.ruleLines 1 solo).map fun entry => entry ++ "\n")) ∧
        out.stdout = String.join (solos.mapIdx fun n solo =>
          "request " ++ Decimal.text (n + 1 : Nat) ++ ":\n" ++
            String.join ((Report.ruleLines 1 solo).map fun entry => "  " ++ entry ++ "\n"))) ∧
      (out.status = 1 ↔ ∃ single ∈ alone, single.status = 1) := by
  intro all solos alone
  have hall : List.Forall₂ u.Reports alone solos := forall_reports hparams hdocs hsingles network
  refine ⟨?_, fun decided received htogether => ?_⟩
  · obtain ⟨received, hrun⟩ := hbatch.exists_run hparams (ofJson_array hdocs) network
    exact ⟨solos, received, Setup.together_alone u network all, hrun⟩
  · have hdecided : decided = solos := Setup.eq_alone_of_together htogether
    subst hdecided
    intro out
    refine ⟨fun hloud hjson => ⟨?_, ?_⟩, fun hloud htext => ⟨?_, ?_⟩, ?_⟩
    · exact map_eq_map_of_forall hall fun _ _ h => h.json hloud hjson
    · have hquiet := hbatch.quiet.trans hloud
      have hformat := hbatch.format.trans hjson
      simp only [out, Invocation.evaluated, hquiet, hformat]
      rfl
    · exact map_eq_map_of_forall hall fun _ _ h => h.text hloud htext
    · have hquiet := hbatch.quiet.trans hloud
      have hformat := hbatch.format.trans htext
      have hlines := Report.lines_batchLines 1 solos
      simp only [Nat.add_comm 1] at hlines
      simp only [out, Invocation.evaluated, hquiet, hformat]
      exact hlines
    · have hrefused : alone.map (fun single => decide (single.status = 1)) =
          solos.map fun solo => u.failOnError && solo.any (!·.isSuccess) :=
        map_eq_map_of_forall hall fun single solo h => by
          rw [Bool.eq_iff_iff, decide_eq_true_iff, h.status, Bool.and_eq_true]
      have hsome : (∃ single ∈ alone, single.status = 1) ↔
          true ∈ alone.map fun single => decide (single.status = 1) := by simp
      rw [Invocation.status_evaluated, hsome, hrefused, List.mem_map, List.any_eq_true]
      simp only [Bool.and_eq_true, exists_and_left, and_left_comm]

/-! ## A batch of three -/

/-- Permits a request that has what the far side answers to its user, and denies all requests. -/
def levelHeldOrDenied {α : Type} (level user : α) : RuleSet α :=
  ⟨[⟨"level", .rest "http://levels" .get [("who", user)]⟩, ⟨"user", .request "user"⟩],
    [.when (.equal (.attr level) (.request "held")) .permit, .always .deny]⟩

def ofUser (name : String) : Json := .object [("user", .string name)]

/-- Requests of two users, and one of nobody. -/
def heldDocs : List Json := [ofUser "eve", ofUser "bob", .object []]

/-- A disk with the policy, the three requests and the batch of them. -/
def heldDisk : Disk
  | "p.rules" => .ok (Source.print (levelHeldOrDenied "level" "user"))
  | "0.json" => .ok ((ofUser "eve").pretty ++ "\n")
  | "1.json" => .ok ((ofUser "bob").pretty ++ "\n")
  | "2.json" => .ok ((Json.object []).pretty ++ "\n")
  | "all.json" => .ok ((Json.array heldDocs).pretty ++ "\n")
  | _ => .error .notFound

/-- Only Eve is on a high level. -/
def levels : Http.Network := fun request =>
  if request.line = "GET /?who=eve HTTP/1.1" then some ⟨200, "high", true⟩
  else some ⟨200, "low", true⟩

def evaluatingHeld (file : String) : Invocation :=
  ⟨.text, false, none, none, .eval "p.rules" file ["held=high"] false true⟩

def heldSetup : Setup := ⟨.default, levelHeldOrDenied 0 1, ["held=high"], false, true, .text, false⟩

/-- The requests of the batch with the parameter over them. -/
def heldRequests : List Request :=
  [[("held", "high"), ("user", "eve")], [("held", "high"), ("user", "bob")], [("held", "high")]]

theorem loadPolicy_held : loadPolicy heldDisk "p.rules" = .ok (levelHeldOrDenied 0 1) := by
  have hname : ¬ namesDocument "p.rules" := by decide
  have hdisk : heldDisk "p.rules" = .ok (Source.print (levelHeldOrDenied "level" "user")) := rfl
  have hcompile : compile "p.rules" (Source.print (levelHeldOrDenied "level" "user")) =
      .ok (levelHeldOrDenied 0 1) :=
    Source.compile_print "p.rules" (by decide) (by decide) (by rfl)
  rw [loadPolicy, if_neg hname]
  simp only [loadSource, hdisk, hcompile]

theorem evaluates_held {file : String} {doc : Json}
    (hdisk : heldDisk file = .ok (doc.pretty ++ "\n")) (hplain : doc.Plain)
    (hlevels : doc.levels ≤ Json.levelLimit) :
    (evaluatingHeld file).Evaluates heldDisk heldSetup doc where
  files := by
    refine ⟨"p.rules", file, rfl, loadPolicy_held, ?_⟩
    have hread : Json.read (doc.pretty ++ "\n") = some doc := by
      rw [Json.read_pretty hplain, if_pos hlevels]
    simp only [loadJson, loadText, hdisk, ok_bind, hread]
  settings := rfl
  format := rfl
  quiet := rfl

theorem plain_ofUser (name : String) : (ofUser name).Plain := ⟨by simp, trivial, trivial⟩

theorem evaluates_heldDocs :
    (evaluatingHeld "all.json").Evaluates heldDisk heldSetup (.array heldDocs) := by
  have hplain : (Json.array heldDocs).Plain :=
    ⟨plain_ofUser _, plain_ofUser _, ⟨List.nodup_nil, trivial⟩, trivial⟩
  exact evaluates_held rfl hplain (by decide)

/-- The report on a batch of three, of which the first two get different answers and the last one
has a rule that fails, in whatever order the far side answers. -/
theorem batch_report_of_three :
    (∃ decided received, heldSetup.Together levels heldRequests decided ∧
      (evaluatingHeld "all.json").run heldDisk levels =
        (evaluatingHeld "all.json").evaluated true (.batch heldRequests) decided received) ∧
    ∀ decided received, heldSetup.Together levels heldRequests decided →
      let out := (evaluatingHeld "all.json").evaluated true (.batch heldRequests) decided received
      ((evaluatingHeld "0.json").run heldDisk levels).stdout =
          "rule 1: Permit\nrule 2: Deny\n" ∧
        ((evaluatingHeld "1.json").run heldDisk levels).stdout =
          "rule 1: Undecided\nrule 2: Deny\n" ∧
        ((evaluatingHeld "2.json").run heldDisk levels).stdout =
          "rule 1: error: missing request parameter 'user'\nrule 2: Deny\n" ∧
        out.stdout = "request 1:\n  rule 1: Permit\n  rule 2: Deny\n" ++
          "request 2:\n  rule 1: Undecided\n  rule 2: Deny\n" ++
          "request 3:\n  rule 1: error: missing request parameter 'user'\n  rule 2: Deny\n" ∧
        out.status = 1 := by
  have hfirst : (evaluatingHeld "0.json").Evaluates heldDisk heldSetup (ofUser "eve") :=
    evaluates_held rfl (plain_ofUser _) (by decide)
  have hsecond : (evaluatingHeld "1.json").Evaluates heldDisk heldSetup (ofUser "bob") :=
    evaluates_held rfl (plain_ofUser _) (by decide)
  have hthird : (evaluatingHeld "2.json").Evaluates heldDisk heldSetup (.object []) :=
    evaluates_held rfl ⟨List.nodup_nil, trivial⟩ (by decide)
  obtain ⟨hrun, hreports⟩ := batch_reports_singles (evaluatingHeld "all.json") heldDisk levels
    heldSetup heldDocs [[("user", "eve")], [("user", "bob")], []] [("held", "high")]
    [(evaluatingHeld "0.json", heldDisk), (evaluatingHeld "1.json", heldDisk),
      (evaluatingHeld "2.json", heldDisk)] rfl (.cons rfl (.cons rfl (.cons rfl .nil)))
    evaluates_heldDocs (.cons hfirst (.cons hsecond (.cons hthird .nil)))
  refine ⟨hrun, fun decided received htogether => ?_⟩
  obtain ⟨-, htext, hstatus⟩ := hreports decided received htogether
  obtain ⟨halone, hout⟩ := htext rfl rfl
  obtain ⟨heve, halone⟩ := List.cons_eq_cons.mp halone
  obtain ⟨hbob, halone⟩ := List.cons_eq_cons.mp halone
  obtain ⟨hnobody, -⟩ := List.cons_eq_cons.mp halone
  have hsolo : (heldSetup.alone levels [("held", "high")]).any (!·.isSuccess) = true := by
    decide +kernel
  have hreport : heldSetup.Reports ((evaluatingHeld "2.json").run heldDisk levels)
      (heldSetup.alone levels (overlay [("held", "high")] [])) :=
    hthird.reports rfl rfl levels
  have hfails : ((evaluatingHeld "2.json").run heldDisk levels).status = 1 :=
    hreport.status.mpr ⟨rfl, hsolo⟩
  exact ⟨heve, hbob, hnobody, hout, hstatus.mpr ⟨_, by simp, hfails⟩⟩

end Command

end Policy
