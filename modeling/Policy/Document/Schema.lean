import Policy.Json.Write
import Policy.RuleSet

namespace Policy.Document.Schema

/-- The three families of nodes in a document. -/
inductive Family where
  | term
  | condition
  | rule
  deriving DecidableEq

/-- What a member of a node may be. -/
inductive Shape where
  | text
  | integer
  | name
  | word (options : List String)
  | node (family : Family)
  | nodes (family : Family)
  | names
  deriving DecidableEq

/-- The members that a node has: all of these and no others. -/
abbrev Record := List (String × Shape)

def operators : List String := ["PLUS", "MINUS", "MULTIPLY", "DIVIDE", "REGEX"]

def decisions : List String := ["Permit", "Deny", "Undecided"]

/-- The forms that the nodes of a family take. -/
def Family.forms : Family → List Record
  | term => [
    [("type", .word ["string"]), ("value", .text)],
    [("type", .word ["number"]), ("value", .integer)],
    [("type", .word ["attribute"]), ("name", .name)],
    [("type", .word ["request"]), ("key", .text)],
    [("type", .word ["rest"]), ("url", .text), ("method", .word ["GET", "POST", "PUT", "DELETE"]),
      ("params", .names)],
    [("type", .word ["coerce"]), ("from", .node .term), ("to", .word ["STRING", "NUMBER"])],
    [("type", .word operators), ("lhs", .node .term), ("rhs", .node .term)]]
  | condition => [
    [("type", .word ["not"]), ("condition", .node .condition)],
    [("type", .word ["and", "or"]), ("lhs", .node .condition), ("rhs", .node .condition)],
    [("type", .word ["equal", "greater"]), ("lhs", .node .term), ("rhs", .node .term)]]
  | rule => [
    [("type", .word ["always", "never"]), ("decision", .word decisions)],
    [("type", .word ["when"]), ("condition", .node .condition), ("decision", .word decisions)],
    [("type", .word ["branch"]), ("condition", .node .condition), ("true", .node .rule),
      ("false", .node .rule)],
    [("type", .word ["majority", "all", "any"]), ("decision", .word decisions),
      ("rules", .nodes .rule)],
    [("type", .word ["one-of"]), ("rules", .nodes .rule)]]

def isLetter (c : Char) : Bool := ('A' ≤ c && c ≤ 'Z') || ('a' ≤ c && c ≤ 'z')

def isNameChar (c : Char) : Bool := isLetter c || ('0' ≤ c && c ≤ '9') || c = '_'

/-- Whether a text is a letter with letters, digits and underscores behind it. -/
def isName (text : String) : Bool :=
  match text.toList with
  | [] => false
  | c :: cs => isLetter c && cs.all isNameChar

/-- The families that a document is a node of. -/
structure Membership where
  term : Bool
  condition : Bool
  rule : Bool
  deriving DecidableEq

namespace Membership

def everywhere : Membership := ⟨true, true, true⟩

def nowhere : Membership := ⟨false, false, false⟩

def both (a b : Membership) : Membership :=
  ⟨a.term && b.term, a.condition && b.condition, a.rule && b.rule⟩

def holds (m : Membership) : Family → Bool
  | .term => m.term
  | .condition => m.condition
  | .rule => m.rule

end Membership

/-- A document with the families that it belongs to, and those that all its items belong to. -/
structure Judged where
  doc : Json
  whole : Membership
  items : Membership

def Shape.admits (shape : Shape) (x : Judged) : Bool :=
  match shape, x.doc with
  | text, .string _ => true
  | integer, .number (.whole _) => true
  | integer, .number (.float f) => f.isWhole
  | name, .string s => isName s
  | word options, .string s => options.contains s
  | names, .object members =>
    members.all fun (_, x) => match x with
      | .string s => isName s
      | _ => false
  | node family, _ => x.whole.holds family
  | nodes family, _ => x.items.holds family
  | _, _ => false

def admits (record : Record) (members : List (String × Judged)) : Bool :=
  (record.all fun (name, shape) => (Json.get? name members).any shape.admits) &&
    members.all fun (name, _) => record.any (·.1 = name)

def judgeObject (members : List (String × Judged)) : Membership :=
  ⟨(Family.forms .term).any (admits · members), (Family.forms .condition).any (admits · members),
    (Family.forms .rule).any (admits · members)⟩

mutual

/-- Judges a document from its parts upwards. -/
def judge : Json → Judged
  | .array items => ⟨.array items, .nowhere, judgeItems items⟩
  | .object members => ⟨.object members, judgeObject (judgeMembers members), .nowhere⟩
  | doc => ⟨doc, .nowhere, .nowhere⟩

def judgeItems : List Json → Membership
  | [] => .everywhere
  | x :: xs => (judge x).whole.both (judgeItems xs)

def judgeMembers : List (String × Json) → List (String × Judged)
  | [] => []
  | (name, x) :: members => (name, judge x) :: judgeMembers members

end

/-- A way in which a document departs from the schema. -/
inductive Violation where
  | type (doc : Json) (wanted : String)
  | missing (name : String)
  | unexpected (names : List String)
  | notName (doc : Json)
  | noForm (doc : Json)
  deriving DecidableEq

def Violation.message : Violation → String
  | type doc wanted => doc.compact ++ " is not of type \"" ++ wanted ++ "\""
  | missing name => "\"" ++ name ++ "\" is a required property"
  | unexpected names =>
    let listed := ", ".intercalate (names.map fun name => "'" ++ name ++ "'")
    let verb := if names.length = 1 then " was" else " were"
    "Additional properties are not allowed (" ++ listed ++ verb ++ " unexpected)"
  | notName doc => doc.compact ++ " does not match \"^[A-Za-z][A-Za-z0-9_]*$\""
  | noForm doc =>
    doc.compact ++ " is not valid under any of the schemas listed in the 'oneOf' keyword"

/-- The violations within a document, in the order in which they are reported. -/
abbrev Check := Json → List Violation

def checkName : Check
  | .string text => if isName text then [] else [.notName (.string text)]
  | doc => [.type doc "string"]

def checkNode (family : Family) : Check := fun doc =>
  if (judge doc).whole.holds family then [] else [.noForm doc]

def checkItems (item : Check) : Check
  | .array items => items.flatMap item
  | doc => [.type doc "array"]

/-- Members that are missing, then what is wrong within the others, then those that have no place
here. -/
def checkRecord (record : List (String × Check)) : Check
  | .object members =>
    let absent := record.filter fun (name, _) => (Json.get? name members).isNone
    let within := members.flatMap fun (name, x) =>
      match Json.get? name record with
      | some check => check x
      | none => []
    let extra := members.filter fun (name, _) => (Json.get? name record).isNone
    absent.map (fun (name, _) => Violation.missing name) ++ within ++
      (if extra.isEmpty then [] else [.unexpected (extra.map (·.1))])
  | doc => [.type doc "object"]

def checkAttribute : Check := checkRecord [("name", checkName), ("value", checkNode .term)]

/-- The violations of a document that should describe a rule set. -/
def check : Check :=
  checkRecord [("attributes", checkItems checkAttribute), ("rules", checkItems (checkNode .rule))]

end Policy.Document.Schema
