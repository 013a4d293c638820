import Policy.Json.Value
import Policy.Traced

namespace Policy.Document

def writeValue : Value → Json
  | .string text => .string text
  | .number n => .number (.whole n.val)
  | .truth b => .bool b

/-- Named values as members. Of a repeated name the last value counts. -/
def writeValues (values : List (String × Value)) : Json :=
  .object (Json.collect (values.map fun (name, v) => (name, writeValue v)))

def writeFinding : Finding → Json
  | .value v => writeValue v
  | .truth b => .bool b
  | .decision d => .string d.name
  | .params params => writeValues params

mutual

/-- The document that shows an explanation with all its steps. -/
def writeExplanation : Explanation → Json
  | .node found label children =>
    .object [("value", writeFinding found), ("description", .string label),
      ("children", .array (writeExplanations children))]

def writeExplanations : List Explanation → List Json
  | [] => []
  | e :: es => writeExplanation e :: writeExplanations es

end

end Policy.Document
