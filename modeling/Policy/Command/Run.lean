import Policy.Command.Help
import Policy.Command.Loading
import Policy.Command.Report
import Policy.Document.Validation
import Policy.Document.Writing

namespace Policy.Command

variable [Wording]

/-- What a command line leaves behind, with the requests that came to the network. -/
structure Outcome where
  status : Nat
  stdout : String
  stderr : String
  received : List Http.Request
  deriving DecidableEq

/-- Evaluates a rule set on requests, one after another over the same service. -/
def decideAll {σ : Type} (service : Service σ) (set : RuleSet Slot) :
    σ → List Request → List Decided × σ
  | state, [] => ([], state)
  | state, request :: requests =>
    let e : Evaluation σ := ⟨set, request, service, Evaluation.defaultDepth⟩
    let (decided, session) := e.decisions.run ⟨state, []⟩
    let (rest, state) := decideAll service set session.state requests
    (decided :: rest, state)

namespace Invocation

def refused (i : Invocation) (failure : Failure) : Outcome :=
  ⟨1, "", if i.quiet then "" else Report.failure i.format failure.message, []⟩

/-- Prints the document of a rule set, which is not a message that can be suppressed. -/
def compiled (set : RuleSet Slot) : Outcome :=
  ⟨0, (Document.writeRuleSet set.byName).pretty ++ "\n", "", []⟩

/-- Reports what the rules came to. Rules that fail count only where this is asked for. -/
def evaluated (i : Invocation) (failOnError : Bool) (requests : Requests)
    (decided : List Decided) (received : List Http.Request) : Outcome :=
  let failed := decided.any (·.any (!·.isSuccess))
  let report := if i.quiet then "" else Report.write i.format requests decided
  ⟨if failOnError && failed then 1 else 0, report, "", received⟩

/-- Evaluates with a service that refuses all calls, or with one over the network. -/
def evaluate (i : Invocation) (network : Option Http.Network) (userAgent : String)
    (failOnError : Bool) (set : RuleSet Slot) (requests : Requests) : Outcome :=
  match network with
  | none =>
    let (decided, _) := decideAll Service.disabled set () requests.toList
    i.evaluated failOnError requests decided []
  | some network =>
    let (decided, received) := decideAll (Http.service userAgent network) set [] requests.toList
    i.evaluated failOnError requests decided received

/-- Reports on a document. Objections as a document are printed even where messages are
suppressed. -/
def validated (i : Invocation) (doc : Json) : Outcome :=
  match Document.objections doc with
  | [] => ⟨0, if i.quiet then "" else Report.valid i.format, "", []⟩
  | found =>
    let silent := i.quiet && i.format = .text
    ⟨1, "", if silent then "" else Report.invalid i.format (found.map (·.message)), []⟩

/-- Carries out the task of a command line. -/
def perform (i : Invocation) (disk : Disk) (network : Http.Network) (settings : Settings) :
    Except Failure Outcome :=
  match i.task with
  | .compile file => do
    let set ← loadSource disk file
    pure (compiled set)
  | .eval policy request params offline failOnError => do
    let set ← loadPolicy disk policy
    let requests ← loadRequests disk request params
    let network := if offline || !settings.restEnabled then none else some network
    pure (i.evaluate network settings.userAgent failOnError set requests)
  | .validate file => do
    let doc ← loadJson disk file
    pure (i.validated doc)

/-- Carries out a command line under its settings. -/
def run (i : Invocation) (disk : Disk) (network : Http.Network) : Outcome :=
  let outcome := do
    let settings ← loadSettings disk i.config
    let level := i.logLevel.getD settings.logLevel
    i.perform disk network { settings with logLevel := level }
  match outcome with
  | .ok outcome => outcome
  | .error failure => i.refused failure

/-- The paths that a command line reads. -/
def paths (i : Invocation) : List String :=
  i.config.getD settingsPath ::
    match i.task with
    | .compile file => [file]
    | .eval policy request _ _ _ => [policy, request]
    | .validate file => [file]

end Invocation

/-- What is said of arguments that are not valid, in place of the words of a library on what is
wrong with them. -/
def misuseText : String :=
  "error: the arguments are not valid\n\nFor more information, try '--help'.\n"

def Notice.outcome : Notice → Outcome
  | help topic => ⟨0, Help.text topic, "", []⟩
  | version => ⟨0, versionText, "", []⟩
  | misuse => ⟨2, "", misuseText, []⟩

/-- Carries out a command line on the files of a disk and over a network. -/
def run (disk : Disk) (network : Http.Network) (args : List String) : Outcome :=
  match read args with
  | .ok i => i.run disk network
  | .error notice => notice.outcome

end Policy.Command
