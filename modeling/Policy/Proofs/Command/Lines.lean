import Policy.Proofs.Command.Interchange
import Policy.Proofs.Evaluation.Firing
import Policy.Proofs.Evaluation.Quoted

namespace Policy

/-! ## Line breaks in messages -/

def lineBreaks (text : String) : Nat := text.toList.count '\n'

@[simp] theorem lineBreaks_append (a b : String) :
    lineBreaks (a ++ b) = lineBreaks a + lineBreaks b := by
  simp [lineBreaks]

@[simp] theorem lineBreaks_empty : lineBreaks "" = 0 := by
  simp [lineBreaks]

theorem lineBreaks_join_eq_zero_iff {texts : List String} :
    lineBreaks (String.join texts) = 0 ↔ ∀ text ∈ texts, lineBreaks text = 0 := by
  induction texts with
  | nil => simp
  | cons text texts ih =>
    rw [String.join_cons, lineBreaks_append, Nat.add_eq_zero_iff, ih, List.forall_mem_cons]

@[simp] theorem lineBreaks_decimal (n : Int) : lineBreaks (Decimal.text n) = 0 := by
  have hdigits (m : Nat) : '\n' ∉ Nat.toDigits 10 m := by
    intro h
    have hdigit := Nat.isDigit_of_mem_toDigits (by decide) (by decide) h
    exact absurd hdigit (by decide)
  rw [lineBreaks, Decimal.text, String.toList_ofList, List.count_eq_zero]
  cases n with
  | ofNat m => exact hdigits m
  | negSucc m => simpa [Decimal.write] using hdigits (m + 1)

@[simp] theorem lineBreaks_number (n : Number) : lineBreaks n.text = 0 :=
  lineBreaks_decimal n.val

theorem Operator.lineBreaks_symbol (op : Operator) : lineBreaks op.symbol = 0 := by
  cases op with
  | _ => decide

theorem Decision.lineBreaks_name (d : Decision) : lineBreaks d.name = 0 := by
  cases d with
  | _ => decide

theorem writtenPlain_lineBreaks : WrittenPlain fun text => lineBreaks text = 0 where
  number := lineBreaks_number
  truth b := by
    cases b with
    | _ => decide
  typeName v := by
    cases v with
    | _ => simp [Value.typeName, lineBreaks]

theorem Misfit.lineBreaks_message (why : Misfit) :
    lineBreaks why.message = lineBreaks (String.join why.quoted) := by
  unfold message quoted
  cases why with
  | notNumeric text => simp [lineBreaks]
  | noOrder left right => simp [lineBreaks]
  | truthAsNumber => simp [lineBreaks]
  | other message => simp

theorem CallError.lineBreaks_message (error : CallError) :
    lineBreaks error.message = lineBreaks (String.join error.words) := by
  unfold message words
  cases error with
  | status code =>
    have hwords : lineBreaks "HTTP status " = 0 := by simp [lineBreaks]
    simp [hwords]
  | transport message => simp
  | disabled => simp [lineBreaks]

/-- The line breaks of a message are those of the texts that it quotes. -/
theorem Fault.lineBreaks_message [Wording] (fault : Fault) :
    lineBreaks fault.message = lineBreaks (String.join fault.quoted) := by
  unfold message quoted given words
  cases fault with
  | missingParameter key => simp [lineBreaks]
  | misfit why =>
    have hwords : lineBreaks "type coercion failed: " = 0 := by simp [lineBreaks]
    simp [hwords, why.lineBreaks_message]
  | overflow lhs op rhs =>
    have hwords : lineBreaks "arithmetic overflow: " = 0 := by simp [lineBreaks]
    have hspace : lineBreaks " " = 0 := by simp [lineBreaks]
    simp [hwords, hspace, op.lineBreaks_symbol]
  | divisionByZero => simp [lineBreaks]
  | badPattern pattern => simp [lineBreaks]
  | call url error =>
    have hopen : lineBreaks "call to " = 0 := by simp [lineBreaks]
    have hmid : lineBreaks " failed: " = 0 := by simp [lineBreaks]
    simp [hopen, hmid, error.lineBreaks_message]
  | cancelled url => simp [lineBreaks]
  | cycle name => simp [lineBreaks]
  | tooDeep name limit =>
    have hopen : lineBreaks "attribute '" = 0 := by simp [lineBreaks]
    have hmid : lineBreaks "' exceeds the dereference depth limit of " = 0 := by simp [lineBreaks]
    simp [hopen, hmid]
  | unknownSlot slot =>
    have hwords : lineBreaks "unknown attribute #" = 0 := by simp [lineBreaks]
    simp [hwords]

namespace Command

namespace Report

/-! ## Lines of reports -/

/-- What stands between the line breaks of a text. -/
def pieces (text : String) : List String := (text.toList.splitOn '\n').map String.ofList

theorem length_splitOn (cs : List Char) : (cs.splitOn '\n').length = cs.count '\n' + 1 := by
  induction cs with
  | nil => rfl
  | cons c cs ih =>
    rw [List.splitOn_cons_eq_if_modifyHead, List.count_cons]
    by_cases hc : c = '\n'
    · simp [hc, ih]
    · simp [hc, ih]

theorem length_pieces (text : String) : (pieces text).length = lineBreaks text + 1 := by
  rw [pieces, List.length_map, length_splitOn, lineBreaks]

theorem lines_cons (text : String) (texts : List String) :
    lines (text :: texts) = text ++ "\n" ++ lines texts := by
  simp [lines]

theorem lineBreaks_lines (texts : List String) :
    lineBreaks (lines texts) = texts.length + lineBreaks (String.join texts) := by
  induction texts with
  | nil => decide
  | cons text texts ih =>
    have hbreak : lineBreaks "\n" = 1 := by simp [lineBreaks]
    rw [lines_cons, lineBreaks_append, lineBreaks_append, hbreak, ih, String.join_cons,
      lineBreaks_append, List.length_cons]
    omega

theorem pieces_lines {texts : List String} (h : ∀ text ∈ texts, lineBreaks text = 0) :
    pieces (lines texts) = texts ++ [""] := by
  induction texts with
  | nil => decide
  | cons text texts ih =>
    obtain ⟨htext, htexts⟩ := List.forall_mem_cons.mp h
    have hsplit : pieces (lines (text :: texts)) = text :: pieces (lines texts) := by
      have hbreak : "\n".toList = ['\n'] := by simp
      have hnone : '\n' ∉ text.toList := List.count_eq_zero.mp htext
      rw [lines_cons, pieces, String.toList_append, String.toList_append, hbreak,
        List.append_assoc, List.singleton_append, List.splitOn_append_cons_self_of_not_mem hnone,
        List.map_cons, String.ofList_toList]
      rfl
    rw [hsplit, ih htexts, List.cons_append]

/-! ## Lines of rules -/

variable [Wording]

/-- The texts that the line of a rule quotes. -/
def quotedBy (x : Traced Decision) : List String :=
  match x.result with
  | .ok _ => []
  | .error fault => fault.quoted

theorem lineBreaks_ruleLine (number : Nat) (x : Traced Decision) :
    lineBreaks (ruleLine number x) = lineBreaks (String.join (quotedBy x)) := by
  have hopen : lineBreaks "rule " = 0 := by simp [lineBreaks]
  have hcolon : lineBreaks ": " = 0 := by simp [lineBreaks]
  rw [ruleLine, quotedBy]
  cases x.result with
  | ok decision => simp [hopen, hcolon, decision.lineBreaks_name]
  | error fault =>
    have herror : lineBreaks "error: " = 0 := by simp [lineBreaks]
    simp [hopen, hcolon, herror, fault.lineBreaks_message]

theorem ruleLines_eq_mapIdx (number : Nat) (xs : Decided) :
    ruleLines number xs = xs.mapIdx fun k x => ruleLine (number + k) x := by
  induction xs generalizing number with
  | nil => rfl
  | cons x xs ih =>
    rw [ruleLines, ih, List.mapIdx_cons]
    simp only [Nat.add_zero, Nat.add_assoc, Nat.add_comm 1]

theorem length_ruleLines (number : Nat) (xs : Decided) :
    (ruleLines number xs).length = xs.length := by
  rw [ruleLines_eq_mapIdx, List.length_mapIdx]

theorem lineBreaks_ruleLines (number : Nat) (xs : Decided) :
    lineBreaks (String.join (ruleLines number xs)) =
      lineBreaks (String.join (xs.flatMap quotedBy)) := by
  induction xs generalizing number with
  | nil => rfl
  | cons x xs ih =>
    rw [ruleLines, String.join_cons, lineBreaks_append, lineBreaks_ruleLine, ih,
      List.flatMap_cons, String.join_append, lineBreaks_append]

/-- A report has a line for each rule, and one more for each line break that it quotes. -/
theorem length_pieces_ruleLines (xs : Decided) :
    (pieces (lines (ruleLines 1 xs))).length =
      xs.length + lineBreaks (String.join (xs.flatMap quotedBy)) + 1 := by
  rw [length_pieces, lineBreaks_lines, length_ruleLines, lineBreaks_ruleLines]

/-- The text is a line for each rule that tells the decision of the rule, or its error, and nothing
else. -/
structure LinePerRule (out : String) (xs : Decided) : Prop where
  count : (pieces out).length = xs.length + 1
  decision : ∀ (k : Nat) (x : Traced Decision) (d : Decision), xs[k]? = some x →
    x.result = .ok d →
      (pieces out)[k]? = some ("rule " ++ Decimal.text (k + 1 : Nat) ++ ": " ++ d.name)
  error : ∀ (k : Nat) (x : Traced Decision) (fault : Fault), xs[k]? = some x →
    x.result = .error fault →
      (pieces out)[k]? =
        some ("rule " ++ Decimal.text (k + 1 : Nat) ++ ": error: " ++ fault.message)
  rest : (pieces out)[xs.length]? = some ""

theorem linePerRule_of_quoted {xs : Decided}
    (h : ∀ fault, .failed fault ∈ xs → ∀ text ∈ fault.quoted, lineBreaks text = 0) :
    LinePerRule (lines (ruleLines 1 xs)) xs := by
  have hquoted : ∀ text ∈ xs.flatMap quotedBy, lineBreaks text = 0 := by
    intro text htext
    obtain ⟨x, hx, htext⟩ := List.mem_flatMap.mp htext
    cases x with
    | success decision label children => cases htext
    | failed fault => exact h fault hx text htext
  have hbreaks : ∀ text ∈ ruleLines 1 xs, lineBreaks text = 0 := by
    rw [← lineBreaks_join_eq_zero_iff, lineBreaks_ruleLines, lineBreaks_join_eq_zero_iff]
    exact hquoted
  have hpieces := pieces_lines hbreaks
  have hline (k : Nat) (x : Traced Decision) (hx : xs[k]? = some x) :
      (pieces (lines (ruleLines 1 xs)))[k]? = some (ruleLine (k + 1) x) := by
    obtain ⟨hk, rfl⟩ := List.getElem?_eq_some_iff.mp hx
    rw [hpieces, List.getElem?_append_left (by rwa [length_ruleLines]), ruleLines_eq_mapIdx,
      List.getElem?_mapIdx, List.getElem?_eq_getElem hk, Option.map_some, Nat.add_comm]
  refine ⟨?_, ?_, ?_, ?_⟩
  · rw [hpieces, List.length_append, length_ruleLines, List.length_singleton]
  · intro k x d hx hresult
    rw [hline k x hx, ruleLine, hresult]
  · intro k x fault hx hresult
    have hwords : ": error: " = ": " ++ "error: " := by decide
    rw [hline k x hx, ruleLine, hresult, hwords]
    simp only [String.append_assoc]
  · rw [hpieces, ← length_ruleLines 1 xs, List.getElem?_append_right (Nat.le_refl _), Nat.sub_self]
    rfl

theorem length_lt_of_quoted {xs : Decided}
    (h : ∃ fault, .failed fault ∈ xs ∧ ∃ text ∈ fault.quoted, lineBreaks text ≠ 0) :
    xs.length + 1 < (pieces (lines (ruleLines 1 xs))).length := by
  obtain ⟨fault, hfault, text, htext, hbreaks⟩ := h
  have hmem : text ∈ xs.flatMap quotedBy := List.mem_flatMap.mpr ⟨_, hfault, htext⟩
  have hquoted : lineBreaks (String.join (xs.flatMap quotedBy)) ≠ 0 := by
    intro hzero
    exact hbreaks (lineBreaks_join_eq_zero_iff.mp hzero text hmem)
  rw [length_pieces_ruleLines]
  omega

end Report

/-! ## Runs -/

theorem body_of_result {reply : Http.Reply} {words body : String}
    (h : reply.result words = .ok body) : body = "" ∨ body = reply.body := by
  unfold Http.Reply.result at h
  split at h
  · cases h
  · split at h
    · cases h
      exact .inl rfl
    · split at h
      · cases h
        exact .inr rfl
      · cases h

section Runs

variable [Wording]

/-- What comes back over a network is empty, or the body of a reply. -/
theorem body_of_answer {network : Http.Network} {userAgent : String} {call : Call}
    {received : List Http.Request} {body : String}
    (h : (Http.answer userAgent network call received).1 = .ok body) :
    body = "" ∨ ∃ request reply, network request = some reply ∧ body = reply.body := by
  unfold Http.answer at h
  split at h
  · cases h
  · split at h
    · cases h
    · split at h
      · cases h
      · next request _ _ reply hreply =>
        exact (body_of_result h).imp_right fun hbody => ⟨_, reply, hreply, hbody⟩

/-- What the rules come to on a request, over a network or with all calls refused. -/
def decidedOver (network : Option Http.Network) (userAgent : String) (set : RuleSet Slot)
    (request : Request) : Decided :=
  match network with
  | none =>
    let e : Evaluation Unit := ⟨set, request, .disabled, Evaluation.defaultDepth⟩
    (e.decisions.run ⟨(), []⟩).1
  | some network =>
    let e : Evaluation (List Http.Request) :=
      ⟨set, request, Http.service userAgent network, Evaluation.defaultDepth⟩
    (e.decisions.run ⟨[], []⟩).1

theorem length_decidedOver (network : Option Http.Network) (userAgent : String)
    (set : RuleSet Slot) (request : Request) :
    (decidedOver network userAgent set request).length = set.rules.length := by
  cases network with
  | none => exact Evaluation.length_rules _ _
  | some network => exact Evaluation.length_rules _ _

theorem plain_decidedOver {network : Option Http.Network} (userAgent : String)
    {set : RuleSet Slot} {request : Request} (hset : ∀ text ∈ set.texts, lineBreaks text = 0)
    (hrequest : ∀ p ∈ request, lineBreaks p.2 = 0)
    (hreplies : ∀ far, network = some far → ∀ sent reply, far sent = some reply →
      lineBreaks reply.body = 0) :
    ∀ fault, .failed fault ∈ decidedOver network userAgent set request →
      ∀ text ∈ fault.given, lineBreaks text = 0 := by
  intro fault hfault
  cases network with
  | none =>
    let e : Evaluation Unit := ⟨set, request, .disabled, Evaluation.defaultDepth⟩
    have hgiven : e.GivenPlain fun text => lineBreaks text = 0 :=
      ⟨hrequest, fun _ _ _ hbody => nomatch hbody⟩
    exact hgiven.decisions writtenPlain_lineBreaks hset _ fault hfault
  | some far =>
    let e : Evaluation (List Http.Request) :=
      ⟨set, request, Http.service userAgent far, Evaluation.defaultDepth⟩
    have hgiven : e.GivenPlain fun text => lineBreaks text = 0 := by
      refine ⟨hrequest, fun call received body hbody => ?_⟩
      obtain rfl | ⟨sent, reply, hreply, rfl⟩ := body_of_answer hbody
      · decide
      · exact hreplies far rfl sent reply hreply
    exact hgiven.decisions writtenPlain_lineBreaks hset _ fault hfault

namespace Invocation

variable {i : Invocation}

theorem stdout_evaluated (hformat : i.format = .text) (hquiet : i.quiet = false)
    (failOnError : Bool) (request : Request) (decided : Decided) (received : List Http.Request) :
    (i.evaluated failOnError (.single request) [decided] received).stdout =
      Report.lines (Report.ruleLines 1 decided) := by
  simp [evaluated, hformat, hquiet, Report.write, Report.text]

theorem stdout_evaluate (hformat : i.format = .text) (hquiet : i.quiet = false)
    (network : Option Http.Network) (userAgent : String) (failOnError : Bool) (set : RuleSet Slot)
    (request : Request) :
    (i.evaluate network userAgent failOnError set (.single request)).stdout =
      Report.lines (Report.ruleLines 1 (decidedOver network userAgent set request)) := by
  cases network with
  | none => exact stdout_evaluated hformat hquiet failOnError request _ _
  | some network => exact stdout_evaluated hformat hquiet failOnError request _ _

section Run

variable {disk : Disk} {network : Http.Network} {settings : Settings} {set : RuleSet Slot}
  {request : Request} {policy file : String} {params : List String} {offline failOnError : Bool}

theorem stdout_run (htask : i.task = .eval policy file params offline failOnError)
    (hformat : i.format = .text) (hquiet : i.quiet = false)
    (hsettings : loadSettings disk i.config = .ok settings)
    (hset : loadPolicy disk policy = .ok set)
    (hrequest : loadRequests disk file params = .ok (.single request)) :
    (i.run disk network).stdout = Report.lines (Report.ruleLines 1 (decidedOver
      (if offline || !settings.restEnabled then none else some network) settings.userAgent set
      request)) := by
  rw [← stdout_evaluate hformat hquiet _ _ failOnError]
  simp only [run, hsettings, ok_bind, perform, htask, hset, hrequest]
  rfl

end Run

/-- The text report on one request is a line for each rule as long as no rule fails with a fault
that quotes a line break, so in particular where the texts of the policy, the values of the request,
the replies of the network and the words of libraries have none. Line breaks are quoted as they are,
and add lines. -/
theorem text_report_line_per_rule (disk : Disk) (network : Http.Network) (settings : Settings)
    (set : RuleSet Slot) (request : Request) (policy file : String) (params : List String)
    (offline failOnError : Bool) (htask : i.task = .eval policy file params offline failOnError)
    (hformat : i.format = .text) (hquiet : i.quiet = false)
    (hsettings : loadSettings disk i.config = .ok settings)
    (hset : loadPolicy disk policy = .ok set)
    (hrequest : loadRequests disk file params = .ok (.single request)) :
    let far := if offline || !settings.restEnabled then none else some network
    let decided := decidedOver far settings.userAgent set request
    let out := (i.run disk network).stdout
    decided.length = set.rules.length ∧
    ((∀ fault, .failed fault ∈ decided → ∀ text ∈ fault.quoted, lineBreaks text = 0) →
      Report.LinePerRule out decided) ∧
    ((∃ fault, .failed fault ∈ decided ∧ ∃ text ∈ fault.quoted, lineBreaks text ≠ 0) →
      set.rules.length + 1 < (Report.pieces out).length) ∧
    ((∀ text ∈ set.texts, lineBreaks text = 0) → (∀ p ∈ request, lineBreaks p.2 = 0) →
      (∀ sent reply, network sent = some reply → lineBreaks reply.body = 0) →
      (∀ fault, .failed fault ∈ decided → ∀ text ∈ fault.words, lineBreaks text = 0) →
      Report.LinePerRule out decided) := by
  intro far decided out
  have hlength : decided.length = set.rules.length := length_decidedOver _ _ _ _
  have hout : out = Report.lines (Report.ruleLines 1 decided) :=
    stdout_run htask hformat hquiet hsettings hset hrequest
  rw [hout]
  refine ⟨hlength, ?_, ?_, ?_⟩
  · exact Report.linePerRule_of_quoted
  · intro h
    rw [← hlength]
    exact Report.length_lt_of_quoted h
  · intro htexts hvalues hreplies hwords
    have hgiven : ∀ fault, .failed fault ∈ decided → ∀ text ∈ fault.given, lineBreaks text = 0 := by
      apply plain_decidedOver settings.userAgent htexts hvalues
      intro other hfar
      have hother : other = network := by
        dsimp only [far] at hfar
        split at hfar
        · cases hfar
        · cases hfar
          rfl
      rw [hother]
      exact hreplies
    apply Report.linePerRule_of_quoted
    intro fault hfault
    exact List.forall_mem_append.mpr ⟨hgiven fault hfault, hwords fault hfault⟩

end Invocation

end Runs

/-! ## A value that forges a line -/

/-- Permits a request whose number is large, and denies all requests. -/
def largeOrDenied {α : Type} : RuleSet α :=
  ⟨[], [.when (.greater (.coerce (.request "n") .number) (.number ⟨1, by decide⟩)) .permit,
    .always .deny]⟩

def asked (text : String) : Json := .object [("n", .string text)]

/-- A disk with the policy and a request whose value is the text. -/
def asking (text : String) : Disk
  | "p.rules" => .ok (Source.print largeOrDenied)
  | "r.json" => .ok ((asked text).pretty ++ "\n")
  | _ => .error .notFound

def evaluatingAsked : Invocation :=
  ⟨.text, false, none, none, .eval "p.rules" "r.json" [] false false⟩

theorem loadPolicy_asking (text : String) :
    loadPolicy (asking text) "p.rules" = .ok largeOrDenied := by
  have hname : ¬ namesDocument "p.rules" := by decide
  have hdisk : asking text "p.rules" = .ok (Source.print largeOrDenied) := rfl
  have hcompile : compile "p.rules" (Source.print largeOrDenied) = .ok largeOrDenied :=
    Source.compile_print "p.rules" (by decide) (by decide) (by rfl)
  rw [loadPolicy, if_neg hname]
  simp only [loadSource, hdisk, hcompile]

theorem loadRequests_asking (text : String) :
    loadRequests (asking text) "r.json" [] = .ok (.single [("n", text)]) := by
  have hdisk : asking text "r.json" = .ok ((asked text).pretty ++ "\n") := rfl
  have hplain : (asked text).Plain := ⟨by simp, trivial, trivial⟩
  have hlevels : (asked text).levels ≤ Json.levelLimit := by
    simp [asked, Json.levels, Json.memberLevels, Json.levelLimit]
  have hread : Json.read ((asked text).pretty ++ "\n") = some (asked text) := by
    rw [Json.read_pretty hplain, if_pos hlevels]
  simp only [loadRequests, readParams, loadJson, loadText, hdisk, ok_bind, hread]
  rfl

/-- A value that is no number is reported on the line of its rule. -/
theorem text_report_of_word :
    Report.LinePerRule (evaluatingAsked.run (asking "x") fun _ => none).stdout
      [.failed (.misfit (.notNumeric "x")), .success .deny "always" []] := by
  obtain ⟨-, -, -, hplain⟩ := Invocation.text_report_line_per_rule (i := evaluatingAsked)
    (asking "x") (fun _ => none) .default largeOrDenied [("n", "x")] "p.rules" "r.json" [] false
    false rfl rfl rfl rfl (loadPolicy_asking "x") (loadRequests_asking "x")
  apply hplain
  · decide
  · decide
  · exact fun _ _ h => nomatch h
  · intro fault hfault
    have hdecided : .failed fault ∈
        [.failed (.misfit (.notNumeric "x")), Traced.success Decision.deny "always" []] := hfault
    simp only [List.mem_cons, List.not_mem_nil, or_false, reduceCtorEq] at hdecided
    cases hdecided
    exact fun text htext => absurd htext List.not_mem_nil

/-- A value that is no number either, and holds a line of its own. -/
def forgery : String := "x\nrule 2: Permit\n"

/-- The second line of the report is that of the value, and the rule that it names denies. -/
theorem forged_line :
    loadPolicy (asking forgery) "p.rules" = .ok largeOrDenied ∧
      largeOrDenied.rules = [.when (.greater (.coerce (.request "n") .number)
        (.number ⟨1, by decide⟩)) .permit, (.always .deny : Rule Slot)] ∧
      run (asking forgery) (fun _ => none) ["eval", "p.rules", "--request", "r.json"] =
        ⟨0, "rule 1: error: type coercion failed: 'x\nrule 2: Permit\n' is not a number\n" ++
          "rule 2: Deny\n", "", []⟩ ∧
      Report.pieces (run (asking forgery) (fun _ => none)
          ["eval", "p.rules", "--request", "r.json"]).stdout =
        ["rule 1: error: type coercion failed: 'x", "rule 2: Permit", "' is not a number",
          "rule 2: Deny", ""] := by
  have hread : read ["eval", "p.rules", "--request", "r.json"] = .ok evaluatingAsked := by rfl
  have hsettings : loadSettings (asking forgery) evaluatingAsked.config = .ok .default := rfl
  have hrun : run (asking forgery) (fun _ => none) ["eval", "p.rules", "--request", "r.json"] =
      ⟨0, "rule 1: error: type coercion failed: 'x\nrule 2: Permit\n' is not a number\n" ++
        "rule 2: Deny\n", "", []⟩ := by
    rw [run, hread]
    simp only [Invocation.run, hsettings, ok_bind]
    simp only [Invocation.perform, evaluatingAsked, loadPolicy_asking, loadRequests_asking, ok_bind]
    rfl
  refine ⟨loadPolicy_asking forgery, rfl, hrun, ?_⟩
  rw [hrun]
  decide

end Command

end Policy
