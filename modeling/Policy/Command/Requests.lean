import Policy.Document.Path
import Policy.Evaluation
import Policy.Json.Write

namespace Policy.Command

/-- What a request file holds: one request, or a list of them. -/
inductive Requests where
  | single (request : Request)
  | batch (requests : List Request)
  deriving DecidableEq

/-- Why a document holds no requests, and where. -/
inductive RequestProblem where
  | notObject (path : Document.Path)
  | nested (path : Document.Path)
  deriving DecidableEq

def RequestProblem.message : RequestProblem → String
  | notObject path => path.text ++ ": expected a request object"
  | nested path => path.text ++ ": request values must be strings, numbers or booleans"

/-- The text of a parameter, which is that of the document unless it is a string. -/
def parameterText? : Json → Option String
  | .string text => some text
  | .number n => some (String.ofList n.write)
  | .bool b => some (String.ofList (Json.writeBool b))
  | _ => none

def readParameter (path : Document.Path) (member : String × Json) :
    Except RequestProblem (String × String) :=
  match parameterText? member.2 with
  | some text => .ok (member.1, text)
  | none => .error (.nested (path.field member.1))

def readRequest (path : Document.Path) : Json → Except RequestProblem Request
  | .object members => members.mapM (readParameter path)
  | _ => .error (.notObject path)

def readBatch : (index : Nat) → List Json → Except RequestProblem (List Request)
  | _, [] => .ok []
  | index, doc :: docs => do
    let request ← readRequest (Document.Path.start.item index) doc
    let requests ← readBatch (index + 1) docs
    pure (request :: requests)

namespace Requests

/-- The requests that a document holds. -/
def ofJson : Json → Except RequestProblem Requests
  | .array docs => (readBatch 0 docs).map batch
  | doc => (readRequest .start doc).map single

def toList : Requests → List Request
  | single request => [request]
  | batch requests => requests

def map (f : Request → Request) : Requests → Requests
  | single request => single (f request)
  | batch requests => batch (requests.map f)

end Requests

/-- The request with parameters put over its own. The last one of a name counts. -/
def overlay (params : List (String × String)) (request : Request) : Request :=
  params.reverse ++ request

/-- Splits a parameter behind its name, which is not empty. -/
def readParam? (text : String) : Option (String × String) :=
  let name := text.toList.takeWhile (· ≠ '=')
  match text.toList.dropWhile (· ≠ '=') with
  | _ :: value => if name.isEmpty then none else some (String.ofList name, String.ofList value)
  | [] => none

/-- The parameters, or the first text that is none. -/
def readParams : List String → Except String (List (String × String))
  | [] => .ok []
  | text :: texts =>
    match readParam? text with
    | none => .error text
    | some param => do
      let params ← readParams texts
      pure (param :: params)

end Policy.Command
