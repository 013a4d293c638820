import Policy.Proofs.Command.Arguments
import Policy.Proofs.Command.Merged

namespace Policy.Command

variable {disk : Disk} {network : Http.Network} {i j : Invocation} {policy file : String}
  {params : List String} {offline failOnError : Bool}

/-! ## Flags that leave something as it is -/

namespace Invocation

theorem status_of_output [Wording] (h : i.without .output = j.without .output) (disk : Disk)
    (network : Http.Network) : (j.run disk network).status = (i.run disk network).status := by
  have hconfig : j.config = i.config := (congrArg Invocation.config h.symm :)
  have hlevel : j.logLevel = i.logLevel := (congrArg Invocation.logLevel h.symm :)
  have htask : j.task = i.task := (congrArg Invocation.task h.symm :)
  apply run_alike (fun outcome outcome' => outcome'.status = outcome.status) hconfig hlevel
  · exact fun _ => rfl
  intro _ settings _
  apply perform_alike htask
  · exact fun _ _ _ => rfl
  · intro _ _ _ _ _ far _ _ _
    cases far <;> rfl
  · intro _ doc _ _
    unfold validated
    cases Document.objections doc <;> rfl

/-- Whether rules that fail are to count shows in the status alone. -/
theorem texts_evaluating [Wording] (i : Invocation) (disk : Disk) (network : Http.Network)
    (policy request : String) (params : List String) (offline failOnError other : Bool) :
    ((i.evaluating policy request params offline other).run disk network).stdout =
        ((i.evaluating policy request params offline failOnError).run disk network).stdout ∧
      ((i.evaluating policy request params offline other).run disk network).stderr =
        ((i.evaluating policy request params offline failOnError).run disk network).stderr := by
  apply run_alike (i := i.evaluating policy request params offline failOnError)
    (j := i.evaluating policy request params offline other)
    (fun outcome outcome' =>
      outcome'.stdout = outcome.stdout ∧ outcome'.stderr = outcome.stderr) rfl rfl
  · exact fun _ => ⟨rfl, rfl⟩
  intro _ settings _
  simp only [perform, evaluating]
  cases loadPolicy disk policy with
  | error failure => exact .failed failure
  | ok set =>
    rw [ok_bind, ok_bind]
    cases loadRequests disk request params with
    | error failure => exact .failed failure
    | ok requests =>
      refine .done ?_
      unfold evaluate
      split <;> exact ⟨rfl, rfl⟩

theorem texts_of_failOnError [Wording] (h : i.without .failOnError = j.without .failOnError)
    (htask : i.task = .eval policy file params offline failOnError) (disk : Disk)
    (network : Http.Network) :
    (j.run disk network).stdout = (i.run disk network).stdout ∧
      (j.run disk network).stderr = (i.run disk network).stderr := by
  have hi : i = i.evaluating policy file params offline failOnError := by rw [evaluating, ← htask]
  have hj : ∃ other, j = i.evaluating policy file params offline other := by
    obtain ⟨format, quiet, config, logLevel, task⟩ := i
    obtain ⟨format', quiet', config', logLevel', task'⟩ := j
    cases htask
    cases task' <;> cases h
    exact ⟨_, rfl⟩
  obtain ⟨other, rfl⟩ := hj
  have htexts := i.texts_evaluating disk network policy file params offline failOnError other
  rwa [← hi] at htexts

/-! ## What is rejected and what is evaluated -/

/-- Something that an evaluation needs is rejected. -/
inductive Rejected (i : Invocation) (disk : Disk) (policy file : String) (params : List String) :
    Prop where
  | settings (failure : Failure) : loadSettings disk i.config = .error failure →
      Rejected i disk policy file params
  | policy (failure : Failure) : loadPolicy disk policy = .error failure →
      Rejected i disk policy file params
  | param (text : String) : text ∈ params → (∀ key value, ¬ Gives text key value) →
      Rejected i disk policy file params
  | unread (failure : Failure) : loadJson disk file = .error failure →
      Rejected i disk policy file params
  | requests (doc : Json) : loadJson disk file = .ok doc → ¬ HoldsRequests doc →
      Rejected i disk policy file params

theorem not_rejected {settings : Settings} {set : RuleSet Slot} {overrides : List (String × String)}
    {doc : Json} (hsettings : loadSettings disk i.config = .ok settings)
    (hset : loadPolicy disk policy = .ok set) (hparams : readParams params = .ok overrides)
    (hdoc : loadJson disk file = .ok doc) (hholds : HoldsRequests doc) :
    ¬ i.Rejected disk policy file params := by
  intro h
  cases h with
  | settings failure h => cases hsettings.symm.trans h
  | policy failure h => cases hset.symm.trans h
  | param text htext hnone =>
    obtain ⟨key, value, hgives⟩ := exists_gives hparams text htext
    exact hnone key value hgives
  | unread failure h => cases hdoc.symm.trans h
  | requests other h hnone =>
    cases hdoc.symm.trans h
    exact hnone hholds

/-- What an evaluation needs is loaded. -/
structure Loads (i : Invocation) (disk : Disk) (u : Setup) (doc : Json)
    (overrides : List (String × String)) (requests : Requests) : Prop where
  evaluates : i.Evaluates disk u doc
  params : readParams u.params = .ok overrides
  reads : Requests.ofJson doc = .ok requests
  shape : Requests.Of (fun doc request => readRequest .start doc = .ok request) doc requests

/-- A command line is refused where something is rejected, and else evaluates all requests. -/
theorem rejected_or_loads [Wording] (htask : i.task = .eval policy file params offline failOnError)
    (disk : Disk) (network : Http.Network) :
    (i.Rejected disk policy file params ∧ ∃ failure, i.run disk network = i.refused failure) ∨
    (¬ i.Rejected disk policy file params ∧
      ∃ u doc overrides requests, i.Loads disk u doc overrides requests) := by
  -- Each step of loading either is the exit, or leads on to the next one.
  cases hsettings : loadSettings disk i.config with
  | error failure =>
    refine .inl ⟨.settings failure hsettings, failure, ?_⟩
    simp only [run, hsettings, error_bind]
  | ok settings =>
  have hrefused (failure : Failure)
      (h : ∀ settings, i.perform disk network settings = .error failure) :
      ∃ failure, i.run disk network = i.refused failure :=
    ⟨failure, run_of_perform_error hsettings h⟩
  cases hset : loadPolicy disk policy with
  | error failure =>
    refine .inl ⟨.policy failure hset, hrefused failure fun settings => ?_⟩
    simp only [perform, htask, hset, error_bind]
  | ok set =>
  cases hparams : readParams params with
  | error text =>
    obtain ⟨hmem, hnone⟩ := gives_none_of_readParams hparams
    refine .inl ⟨.param text hmem hnone, hrefused (.param text) fun settings => ?_⟩
    simp only [perform, htask, hset, loadRequests, hparams, ok_bind, error_bind]
  | ok overrides =>
  cases hdoc : loadJson disk file with
  | error failure =>
    refine .inl ⟨.unread failure hdoc, hrefused failure fun settings => ?_⟩
    simp only [perform, htask, hset, loadRequests, hparams, hdoc, ok_bind, error_bind]
  | ok doc =>
  by_cases hholds : HoldsRequests doc
  · obtain ⟨requests, hreads, hshape⟩ := exists_ofJson hholds
    let u : Setup := ⟨settings, set, params, offline, failOnError, i.format, i.quiet⟩
    have hevaluates : i.Evaluates disk u doc :=
      ⟨⟨policy, file, htask, hset, hdoc⟩, hsettings, rfl, rfl⟩
    exact .inr ⟨not_rejected hsettings hset hparams hdoc hholds, u, doc, overrides, requests,
      hevaluates, hparams, hreads, hshape⟩
  · cases hreads : Requests.ofJson doc with
    | ok requests => exact absurd (holdsRequests_of_ofJson hreads) hholds
    | error problem =>
      refine .inl ⟨.requests doc hdoc hholds,
        hrefused (.request problem) fun settings => ?_⟩
      simp only [perform, htask, hset, loadRequests, hparams, hdoc, hreads, ok_bind, error_bind]

end Invocation

/-! ## Requests with the same values -/

theorem Requests.Of.map_overlay {texts : List String} {overrides : List (String × String)}
    {doc : Json} {requests : Requests} (hparams : readParams texts = .ok overrides)
    (h : Requests.Of (fun doc request => readRequest .start doc = .ok request) doc requests) :
    Requests.Of (Merged texts) doc (requests.map (overlay overrides)) := by
  cases h with
  | single h => exact .single (merged_overlay hparams h)
  | batch h =>
    refine .batch (List.forall₂_map_right_iff.mpr (h.imp fun doc request hrequest => ?_))
    exact merged_overlay hparams hrequest

theorem map_eq_of_forall₂ {α β γ : Type} {R : α → β → Prop} {f : β → γ} {xs : List α}
    {ys zs : List β} (h : List.Forall₂ R xs ys) (h' : List.Forall₂ R xs zs)
    (hf : ∀ x y z, R x y → R x z → f y = f z) : ys.map f = zs.map f := by
  induction h generalizing zs with
  | nil =>
    cases h'
    rfl
  | cons hfirst _ ih =>
    cases h' with
    | cons hfirst' hrest' =>
      rw [List.map_cons, List.map_cons, hf _ _ _ hfirst hfirst', ih hrest']

/-- Requests with the values that the parameters and the document give come to the same, and are
reported in the same way. -/
theorem evaluated_of_merged [Wording] {texts : List String} {doc : Json} {requests others : Requests}
    (h : Requests.Of (Merged texts) doc requests) (h' : Requests.Of (Merged texts) doc others)
    (i : Invocation) (u : Setup) (network : Http.Network) (failOnError : Bool)
    (received : List Http.Request) :
    i.evaluated failOnError requests (requests.toList.map (u.alone network)) received =
      i.evaluated failOnError others (others.toList.map (u.alone network)) received := by
  have halone {doc : Json} {request other : Request} (hrequest : Merged texts doc request)
      (hother : Merged texts doc other) : u.alone network request = u.alone network other :=
    decidedOver_congr (hrequest.get?_eq hother)
  cases h with
  | single h =>
    cases h' with
    | single h' =>
      simp only [Requests.toList, List.map_cons, halone h h']
      rfl
  | batch h =>
    cases h' with
    | batch h' =>
      simp only [Requests.toList, map_eq_of_forall₂ h h' fun _ _ _ => halone]
      rfl

/-! ## The status of an evaluation -/

namespace Invocation

theorem Evaluates.unique {u u' : Setup} {doc doc' : Json} (h : i.Evaluates disk u doc)
    (h' : i.Evaluates disk u' doc') : u' = u ∧ doc' = doc := by
  obtain ⟨⟨policy, file, htask, hset, hdoc⟩, hsettings, hformat, hquiet⟩ := h
  obtain ⟨⟨policy', file', htask', hset', hdoc'⟩, hsettings', hformat', hquiet'⟩ := h'
  obtain ⟨settings, set, params, offline, failOnError, format, quiet⟩ := u
  obtain ⟨settings', set', params', offline', failOnError', format', quiet'⟩ := u'
  cases htask.symm.trans htask'
  cases hset.symm.trans hset'
  cases hdoc.symm.trans hdoc'
  cases hsettings.symm.trans hsettings'
  cases hformat.symm.trans hformat'
  cases hquiet.symm.trans hquiet'
  exact ⟨rfl, rfl⟩

theorem Evaluates.flags {u : Setup} {doc : Json} (h : i.Evaluates disk u doc)
    (htask : i.task = .eval policy file params offline failOnError) :
    u.params = params ∧ u.failOnError = failOnError := by
  obtain ⟨policy', file', htask', -⟩ := h.files
  cases htask.symm.trans htask'
  exact ⟨rfl, rfl⟩

/-- Some rule fails on some request, evaluated with the values that the request is to have. -/
def Fails [Wording] (i : Invocation) (disk : Disk) (network : Http.Network) (params : List String) : Prop :=
  ∃ u doc requests, i.Evaluates disk u doc ∧ Requests.Of (Merged params) doc requests ∧
    ∃ request ∈ requests.toList, ∃ x ∈ u.alone network request, x.isSuccess = false

/-- All requests are evaluated with the values that they are to have. -/
theorem Loads.run [Wording] {u : Setup} {doc : Json} {overrides : List (String × String)}
    {requests others : Requests} (h : i.Loads disk u doc overrides requests)
    (hothers : Requests.Of (Merged u.params) doc others) (network : Http.Network) :
    ∃ received, i.run disk network =
      i.evaluated u.failOnError others (others.toList.map (u.alone network)) received := by
  obtain ⟨received, hrun⟩ := h.evaluates.exists_run h.params h.reads network
  rw [evaluated_of_merged (h.shape.map_overlay h.params) hothers] at hrun
  exact ⟨received, hrun⟩

theorem Loads.status_iff [Wording] {u : Setup} {doc : Json} {overrides : List (String × String)}
    {requests : Requests} (h : i.Loads disk u doc overrides requests) (network : Http.Network) :
    (i.run disk network).status = 1 ↔
      u.failOnError = true ∧ i.Fails disk network u.params := by
  have hfails {others : Requests} (hothers : Requests.Of (Merged u.params) doc others) :
      (i.run disk network).status = 1 ↔ u.failOnError = true ∧
        ∃ request ∈ others.toList, ∃ x ∈ u.alone network request, x.isSuccess = false := by
    obtain ⟨received, hrun⟩ := h.run hothers network
    rw [hrun, status_evaluated]
    simp [List.any_eq_true]
  constructor
  · intro hstatus
    have hmerged := h.shape.map_overlay h.params
    obtain ⟨hcounts, hsome⟩ := (hfails hmerged).mp hstatus
    exact ⟨hcounts, u, doc, _, h.evaluates, hmerged, hsome⟩
  · rintro ⟨hcounts, u', doc', others, hevaluates, hothers, hsome⟩
    obtain ⟨rfl, rfl⟩ := h.evaluates.unique hevaluates
    exact (hfails hothers).mpr ⟨hcounts, hsome⟩

theorem status_le_one [Wording] (i : Invocation) (failOnError : Bool) (requests : Requests)
    (decided : List Decided) (received : List Http.Request) :
    (i.evaluated failOnError requests decided received).status ≤ 1 := by
  unfold evaluated
  dsimp only
  split
  · exact Nat.le_refl _
  · exact Nat.zero_le _

end Invocation

/-- Evaluating ends with an error exactly if something that it needs is rejected, or rules that fail
are to count and one of them does on a request. Neither does the format change this, nor do rules
that are to count change what is printed. Where nothing is rejected, each request is evaluated with
the last parameter of each name, and with what the file says for names without one. -/
theorem status_of_evaluation [Wording] (disk : Disk) (network : Http.Network) (args : List String)
    (i : Invocation) (policy file : String) (params : List String) (offline failOnError : Bool)
    (hread : read args = .ok i)
    (htask : i.task = .eval policy file params offline failOnError) :
    let out := run disk network args
    out.status ≤ 1 ∧
    (out.status = 1 ↔ i.Rejected disk policy file params ∨
      (failOnError = true ∧ i.Fails disk network params)) ∧
    (¬ i.Rejected disk policy file params → ∃ u doc, i.Evaluates disk u doc ∧
      (∃ requests, Requests.Of (Merged params) doc requests) ∧
      ∀ requests, Requests.Of (Merged params) doc requests → ∃ received,
        out = i.evaluated failOnError requests (requests.toList.map (u.alone network)) received) ∧
    (∀ args' j, Varied .output args args' → read args' = .ok j →
      (run disk network args').status = out.status) ∧
    ∀ args' j, Varied .failOnError args args' → read args' = .ok j →
      (run disk network args').stdout = out.stdout ∧
      (run disk network args').stderr = out.stderr := by
  intro out
  have hout : out = i.run disk network := by simp only [out, run, hread]
  have hflags {args' : List String} {j : Invocation} {flag : Flag}
      (hvaried : Varied flag args args') (hread' : read args' = .ok j) :
      run disk network args' = j.run disk network ∧ i.without flag = j.without flag :=
    ⟨by simp only [run, hread'], without_of_varied hvaried hread hread'⟩
  have hformat (args' : List String) (j : Invocation) (hvaried : Varied .output args args')
      (hread' : read args' = .ok j) : (run disk network args').status = out.status := by
    obtain ⟨hrun, hsame⟩ := hflags hvaried hread'
    rw [hrun, hout]
    exact Invocation.status_of_output hsame disk network
  have htexts (args' : List String) (j : Invocation) (hvaried : Varied .failOnError args args')
      (hread' : read args' = .ok j) : (run disk network args').stdout = out.stdout ∧
        (run disk network args').stderr = out.stderr := by
    obtain ⟨hrun, hsame⟩ := hflags hvaried hread'
    rw [hrun, hout]
    exact Invocation.texts_of_failOnError hsame htask disk network
  obtain ⟨hrejected, failure, hrun⟩ | ⟨hnot, u, doc, overrides, requests, hloads⟩ :=
    Invocation.rejected_or_loads htask disk network
  · have hone : out.status = 1 := by
      rw [hout, hrun]
      rfl
    exact ⟨hone.le, iff_of_true hone (.inl hrejected), fun hnot => absurd hrejected hnot, hformat,
      htexts⟩
  · obtain ⟨rfl, rfl⟩ := hloads.evaluates.flags htask
    have hmerged := hloads.shape.map_overlay hloads.params
    refine ⟨?_, ?_, fun _ => ⟨u, doc, hloads.evaluates, ⟨_, hmerged⟩, fun others hothers => ?_⟩,
      hformat, htexts⟩
    · obtain ⟨received, hrun⟩ := hloads.run hmerged network
      rw [hout, hrun]
      exact i.status_le_one _ _ _ _
    · rw [hout, hloads.status_iff network, or_iff_right hnot]
    · rw [hout]
      exact hloads.run hothers network

def heldArgs : List String := ["eval", "p.rules", "--request", "all.json", "--param", "held=high"]

/-- A request of a batch lacks what a rule asks for, which counts in either format. -/
theorem status_of_held :
    (run heldDisk levels (heldArgs ++ ["--fail-on-error"])).status = 1 ∧
    (run heldDisk levels (heldArgs ++ ["--output", "json", "--fail-on-error"])).status = 1 ∧
    (run heldDisk levels heldArgs).stdout =
      (run heldDisk levels (heldArgs ++ ["--fail-on-error"])).stdout := by
  obtain ⟨-, hstatus, -, hformat, htexts⟩ := status_of_evaluation heldDisk levels
    (heldArgs ++ ["--fail-on-error"]) (evaluatingHeld "all.json") "p.rules" "all.json" ["held=high"]
    false true (by rfl) rfl
  have hparams : readParams ["held=high"] = .ok [("held", "high")] := by rfl
  have hmerged {doc : Json} {request : Request} (h : readRequest .start doc = .ok request) :
      Merged ["held=high"] doc (overlay [("held", "high")] request) :=
    merged_overlay hparams h
  have hbatch : Requests.Of (Merged ["held=high"]) (.array heldDocs) (.batch heldRequests) :=
    .batch (.cons (hmerged rfl) (.cons (hmerged rfl) (.cons (hmerged rfl) .nil)))
  have hfails : ∃ x ∈ heldSetup.alone levels [("held", "high")], x.isSuccess = false := by
    decide +kernel
  have hone := hstatus.mpr (.inr ⟨rfl, heldSetup, _, _, evaluates_heldDocs, hbatch,
    [("held", "high")], by simp [Requests.toList, heldRequests], hfails⟩)
  refine ⟨hone, ?_, ?_⟩
  · have hspelled : Flag.output.Spelled ["--output", "json"] :=
      .detached "json" (by decide) (by decide)
    have hvaried : Varied .output (heldArgs ++ ["--fail-on-error"])
        (heldArgs ++ ["--output", "json", "--fail-on-error"]) :=
      ⟨heldArgs, [], _, ["--fail-on-error"], by decide, .inl rfl, .inr hspelled, rfl, rfl⟩
    rw [hformat _ { evaluatingHeld "all.json" with format := .json } hvaried (by rfl), hone]
  · have hvaried : Varied .failOnError (heldArgs ++ ["--fail-on-error"]) heldArgs :=
      ⟨heldArgs, _, [], [], by decide, .inr (.bare rfl), .inl rfl, rfl, rfl⟩
    exact (htexts _ ((evaluatingHeld "all.json").evaluating "p.rules" "all.json" ["held=high"] false
      false) hvaried (by rfl)).1

end Policy.Command
