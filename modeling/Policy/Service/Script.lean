import Policy.Service

namespace Policy.Service

/-- What a prepared far side does: the answers for each address in the order of the calls to it, of
which the last one stays, and the number of the call from which on all are cancelled. -/
structure Script where
  answers : List (String × List (Except CallError String))
  cancelAfter : Option Nat

/-- The addresses of the calls so far, last one first. -/
abbrev Script.History := List String

namespace Script

def answer (script : Script) (call : Call) (history : History) :
    Except CallError String × History :=
  let prepared := ((script.answers.find? (·.1 = call.url)).map (·.2)).getD []
  let found := prepared[history.count call.url]? <|> prepared.getLast?
  (found.getD (.error (.status 404)), call.url :: history)

def stopped (script : Script) (history : History) : Bool :=
  match script.cancelAfter with
  | some n => n ≤ history.length
  | none => false

/-- The service that follows the script. -/
def service (script : Script) : Service History := ⟨script.answer, script.stopped⟩

end Script

end Policy.Service
