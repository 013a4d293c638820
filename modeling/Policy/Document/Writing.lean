import Policy.Json.Write
import Policy.RuleSet

namespace Policy.Document

/-- An object that tells its kind first. -/
def node (kind : String) (members : List (String × Json)) : Json :=
  .object (("type", .string kind) :: members)

/-- The parameters of a call as members. Of a repeated name the last value counts. -/
def writeParams (params : List (String × String)) : Json :=
  .object (Json.collect (params.map fun (name, ref) => (name, .string ref)))

def writeTerm : Term String → Json
  | .string text => node "string" [("value", .string text)]
  | .number n => node "number" [("value", .number (.whole n.val))]
  | .attr ref => node "attribute" [("name", .string ref)]
  | .request key => node "request" [("key", .string key)]
  | .coerce operand kind =>
    node "coerce" [("from", writeTerm operand), ("to", .string kind.name)]
  | .binary op lhs rhs => node op.name [("lhs", writeTerm lhs), ("rhs", writeTerm rhs)]
  | .rest url method params =>
    node "rest" [("url", .string url), ("method", .string method.name),
      ("params", writeParams params)]

def writeCondition : Condition String → Json
  | .not inner => node "not" [("condition", writeCondition inner)]
  | .and lhs rhs => node "and" [("lhs", writeCondition lhs), ("rhs", writeCondition rhs)]
  | .or lhs rhs => node "or" [("lhs", writeCondition lhs), ("rhs", writeCondition rhs)]
  | .equal lhs rhs => node "equal" [("lhs", writeTerm lhs), ("rhs", writeTerm rhs)]
  | .greater lhs rhs => node "greater" [("lhs", writeTerm lhs), ("rhs", writeTerm rhs)]

def writeDecision (decision : Decision) : String × Json := ("decision", .string decision.name)

mutual

def writeRule : Rule String → Json
  | .always decision => node "always" [writeDecision decision]
  | .never => node "never" [writeDecision .undecided]
  | .when condition decision =>
    node "when" [("condition", writeCondition condition), writeDecision decision]
  | .branch condition onTrue onFalse =>
    node "branch" [("condition", writeCondition condition), ("true", writeRule onTrue),
      ("false", writeRule onFalse)]
  | .majority decision rules =>
    node "majority" [writeDecision decision, ("rules", .array (writeRules rules))]
  | .all decision rules =>
    node "all" [writeDecision decision, ("rules", .array (writeRules rules))]
  | .any decision rules =>
    node "any" [writeDecision decision, ("rules", .array (writeRules rules))]
  | .oneOf rules => node "one-of" [("rules", .array (writeRules rules))]

def writeRules : List (Rule String) → List Json
  | [] => []
  | rule :: rules => writeRule rule :: writeRules rules

end

def writeAttribute (a : Attribute String) : Json :=
  .object [("name", .string a.name), ("value", writeTerm a.value)]

/-- The document that describes a rule set. -/
def writeRuleSet (set : RuleSet String) : Json :=
  .object [("attributes", .array (set.attributes.map writeAttribute)),
    ("rules", .array (writeRules set.rules))]

end Policy.Document
