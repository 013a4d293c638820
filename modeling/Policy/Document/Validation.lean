import Policy.Document.Reading
import Policy.Document.Schema
import Policy.Linking

namespace Policy.Document

/-- What can be held against a document that should describe a rule set. -/
inductive Objection where
  | schema (violation : Schema.Violation)
  | content (problem : Problem)
  | link (error : LinkError)
  deriving DecidableEq

def Objection.message [Wording] : Objection → String
  | schema violation => violation.message
  | content problem => problem.message
  | link error => error.message

/-- All violations of the schema. A document without any is read and linked, up to the first
error. -/
def objections (doc : Json) : List Objection :=
  match Schema.check doc with
  | violation :: violations => (violation :: violations).map .schema
  | [] =>
    match readRuleSet doc with
    | .error problem => [.content problem]
    | .ok set =>
      match set.link with
      | .error error => [.link error]
      | .ok _ => []

end Policy.Document
