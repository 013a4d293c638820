import Policy.Term
import Policy.Wording

namespace Policy

/-- Why a call to a remote service has no answer. -/
inductive CallError where
  | status (code : Nat)
  | transport (message : String)
  | disabled
  deriving DecidableEq

def CallError.message : CallError → String
  | status code => "HTTP status " ++ Decimal.text code
  | transport message => message
  | disabled => "REST calls are disabled"

/-- Why a value cannot be used as an operation needs it. -/
inductive Misfit where
  | notNumeric (text : String)
  | noOrder (left right : String)
  | truthAsNumber
  | other (message : String)
  deriving DecidableEq

def Misfit.message : Misfit → String
  | notNumeric text => "'" ++ text ++ "' is not a number"
  | noOrder left right => "cannot order " ++ left ++ " against " ++ right
  | truthAsNumber => "cannot use Boolean as a number"
  | other message => message

/-- Why a term, condition or rule has no result. -/
inductive Fault where
  | missingParameter (key : String)
  | misfit (why : Misfit)
  | overflow (lhs : Number) (op : Operator) (rhs : Number)
  | divisionByZero
  | badPattern (pattern : String)
  | call (url : String) (error : CallError)
  | cancelled (url : String)
  | cycle (name : String)
  | tooDeep (name : String) (limit : Nat)
  | unknownSlot (slot : Nat)
  deriving DecidableEq

namespace Fault

def message [Wording] : Fault → String
  | missingParameter key => "missing request parameter '" ++ key ++ "'"
  | misfit why => "type coercion failed: " ++ why.message
  | overflow lhs op rhs =>
    "arithmetic overflow: " ++ lhs.text ++ " " ++ op.symbol ++ " " ++ rhs.text
  | divisionByZero => "division by zero"
  | badPattern pattern => "invalid pattern '" ++ pattern ++ "': " ++ Wording.pattern pattern
  | call url error => "call to " ++ url ++ " failed: " ++ error.message
  | cancelled url => "call to " ++ url ++ " cancelled"
  | cycle name => "attribute '" ++ name ++ "' refers to itself"
  | tooDeep name limit =>
    "attribute '" ++ name ++ "' exceeds the dereference depth limit of " ++ Decimal.text limit
  | unknownSlot slot => "unknown attribute #" ++ Decimal.text slot

/-- Whether the fault is one of converting values, which includes numbers out of range. -/
def ofConversion : Fault → Bool
  | misfit _ | overflow _ _ _ => true
  | _ => false

end Fault

end Policy
