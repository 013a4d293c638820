import Policy.Document.Explanation
import Policy.Http.Percent
import Policy.Http.Url
import Policy.Json.Write
import Policy.Service

namespace Policy.Http

/-- The content of a request: the parameters as an object. -/
def content (params : List (String × Value)) : String := (Document.writeValues params).compact

/-- A parameter as a pair of a query. -/
def pair (param : String × Value) : List Char :=
  Percent.encode param.1.toList ++ '=' :: Percent.encode param.2.render.toList

def contentType : String := "application/json; charset=utf-8"

/-- What goes over the wire, and the address that it goes to. -/
structure Request extends Url where
  line : String
  userAgent : Option String
  content : Option String
  deriving DecidableEq

def carriesContent : Method → Bool
  | .post | .put => true
  | .get | .delete => false

/-- The characters that a header may hold. -/
def isHeaderChar (c : Char) : Bool := (32 ≤ c.toNat && c.toNat ≠ 127) || c = '\t'

def requestLine (method : Method) (target : List Char) : String :=
  method.name ++ " " ++ String.ofList target ++ " HTTP/1.1"

/-- The request for a call to an address. An empty user agent is not told. -/
def requestFor (userAgent : String) (url : Url) (call : Call) : Option Request :=
  if userAgent.toList.all isHeaderChar then
    let agent := if userAgent.isEmpty then none else some userAgent
    if carriesContent call.method then
      some ⟨url, requestLine call.method (url.targetWith []), agent, some (content call.params)⟩
    else
      some ⟨url, requestLine call.method (url.targetWith (call.params.map pair)), agent, none⟩
  else none

/-- What comes back. The body may break off before its end. -/
structure Reply where
  status : Nat
  body : String
  complete : Bool
  deriving DecidableEq

/-- Some answers have no body, whatever follows them. -/
def hasBody (status : Nat) : Bool := status ≠ 204 && status ≠ 304

/-- What a reply comes to, with the words for where its body breaks off. -/
def Reply.result (words : String) (reply : Reply) : Except CallError String :=
  if 400 ≤ reply.status && reply.status < 600 then .error (.status reply.status)
  else if !hasBody reply.status then .ok ""
  else if reply.complete then .ok reply.body
  else .error (.transport words)

/-- The far side: what it replies to a request, where it can be reached at all. -/
abbrev Network := Request → Option Reply

/-- Answers a call over a network. The requests that were received are kept in order. -/
def answer [Wording] (userAgent : String) (network : Network) (call : Call)
    (received : List Request) : Except CallError String × List Request :=
  let refuse trouble := (.error (.transport (Wording.transport trouble)), received)
  match Url.parse? call.url with
  | none => refuse (.notAddress call.url)
  | some url =>
    match requestFor userAgent url call with
    | none => refuse (.notUserAgent userAgent)
    | some request =>
      match network request with
      | none => refuse (.unreached call.url request.line request.content)
      | some reply =>
        let words := Wording.transport (.brokenOff call.url request.line request.content)
        (reply.result words, received ++ [request])

def defaultUserAgent : String := "arbiter/0.1.0"

/-- The service that calls addresses over a network. -/
def service [Wording] (userAgent : String) (network : Network) : Service (List Request) :=
  ⟨answer userAgent network, fun _ => false⟩

end Policy.Http
