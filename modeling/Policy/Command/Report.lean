import Policy.Command.Arguments
import Policy.Command.Requests
import Policy.Document.Explanation

namespace Policy.Command

/-- What the rules came to on a request, first rule first. -/
abbrev Decided := List (Traced Decision)

namespace Report

variable [Wording]

def lines (texts : List String) : String := String.join (texts.map (· ++ "\n"))

def ruleLine (number : Nat) (x : Traced Decision) : String :=
  let outcome := match x.result with
    | .ok decision => decision.name
    | .error fault => "error: " ++ fault.message
  "rule " ++ Decimal.text number ++ ": " ++ outcome

/-- The lines of the rules from this number on. -/
def ruleLines : (number : Nat) → Decided → List String
  | _, [] => []
  | number, x :: xs => ruleLine number x :: ruleLines (number + 1) xs

def batchLines : (number : Nat) → List Decided → List String
  | _, [] => []
  | number, xs :: rest =>
    ("request " ++ Decimal.text number ++ ":") ::
      ((ruleLines 1 xs).map ("  " ++ ·) ++ batchLines (number + 1) rest)

/-- A report in lines. The requests of a batch have headings. -/
def text (requests : Requests) (decided : List Decided) : String :=
  match requests with
  | .single _ => lines (ruleLines 1 decided.flatten)
  | .batch _ => lines (batchLines 1 decided)

def ruleDocument (number : Nat) (x : Traced Decision) : Json :=
  match x.parts with
  | .ok (decision, explanation) =>
    .object [("rule", .nat number), ("decision", .string decision.name),
      ("explanation", Document.writeExplanation explanation)]
  | .error fault => .object [("rule", .nat number), ("error", .string fault.message)]

def ruleDocuments : (number : Nat) → Decided → List Json
  | _, [] => []
  | number, x :: xs => ruleDocument number x :: ruleDocuments (number + 1) xs

def requestDocument (xs : Decided) : Json := .object [("results", .array (ruleDocuments 1 xs))]

/-- A report as a document, which is a list for a batch. -/
def document (requests : Requests) (decided : List Decided) : Json :=
  match requests with
  | .single _ => ((decided.head?).map requestDocument).getD .null
  | .batch _ => .array (decided.map requestDocument)

/-- The report of what the rules came to. -/
def write (format : Format) (requests : Requests) (decided : List Decided) : String :=
  match format with
  | .text => text requests decided
  | .json => (document requests decided).pretty ++ "\n"

/-- The report that a document describes a rule set. -/
def valid : Format → String
  | .text => "valid\n"
  | .json => "\x7b\"valid\": true\x7d\n"

/-- The report of why a document describes no rule set. -/
def invalid (format : Format) (messages : List String) : String :=
  match format with
  | .text => lines ("invalid rule set" :: messages.map ("  - " ++ ·))
  | .json =>
    let listed := Json.array (messages.map .string)
    (Json.object [("valid", .bool false), ("errors", listed)]).pretty ++ "\n"

/-- The report that a command could not be carried out. -/
def failure (format : Format) (message : String) : String :=
  match format with
  | .text => message ++ "\n"
  | .json => (Json.object [("error", .string message)]).compact ++ "\n"

end Report

end Policy.Command
