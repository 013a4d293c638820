import Policy.Linking
import Policy.Source.Grammar

namespace Policy

/-- Why a policy text has no linked rule set. -/
inductive CompileError where
  | refused (file : String) (refusal : Source.Refusal)
  | link (error : LinkError)
  deriving DecidableEq

def CompileError.message : CompileError → String
  | refused file refusal => refusal.message file
  | link error => error.message

/-- The linked rule set of a policy text. -/
def compile (file text : String) : Except CompileError (RuleSet Slot) :=
  match Source.ruleSetOf text with
  | .error refusal => .error (.refused file refusal)
  | .ok set =>
    match set.link with
    | .error error => .error (.link error)
    | .ok set => .ok set

end Policy
