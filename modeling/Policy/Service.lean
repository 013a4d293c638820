import Policy.Value

namespace Policy

/-- A call to a remote service. -/
structure Call where
  url : String
  method : Method
  params : List (String × Value)
  deriving DecidableEq

/-- The far side of calls, with a state of its own. Calls are cancelled in states that tell so. -/
structure Service (σ : Type) where
  answer : Call → σ → Except CallError String × σ
  stopped : σ → Bool

/-- The state of the far side and the calls that it was asked to answer, first one first. -/
structure Session (σ : Type) where
  state : σ
  calls : List Call

namespace Service

variable {σ : Type}

/-- Makes a call, unless calls are cancelled. -/
def request (service : Service σ) (call : Call) :
    StateM (Session σ) (Except Fault String) := do
  let session ← get
  if service.stopped session.state then pure (.error (.cancelled call.url))
  else
    let (answer, state) := service.answer call session.state
    set (Session.mk state (session.calls ++ [call]))
    match answer with
    | .ok body => pure (.ok body)
    | .error error => pure (.error (.call call.url error))

/-- The service that refuses every call. -/
def disabled : Service Unit := ⟨fun _ state => (.error .disabled, state), fun _ => false⟩

end Service

end Policy
