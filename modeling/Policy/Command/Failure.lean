import Policy.Command.Requests
import Policy.Compile
import Policy.Disk
import Policy.Document.Problem

namespace Policy.Command

/-- Why a command cannot be carried out. -/
inductive Failure where
  | settingsUnread (path : String) (error : ReadError)
  | settingsMalformed (path : String)
  | policyUnread (path : String) (error : ReadError)
  | policy (error : CompileError)
  | unread (path : String) (error : ReadError)
  | document (path : String) (problem : Document.Problem)
  | link (error : LinkError)
  | param (text : String)
  | notJson (path : String)
  | request (problem : RequestProblem)
  deriving DecidableEq

def Failure.message [Wording] : Failure → String
  | settingsUnread path error => "could not read '" ++ path ++ "': " ++ error.message
  | settingsMalformed path => "could not parse '" ++ path ++ "': " ++ Wording.settings
  | policyUnread path error => "cannot read '" ++ path ++ "': " ++ error.message
  | policy error => error.message
  | unread path error => "error reading file '" ++ path ++ "': " ++ error.message
  | document path problem => path ++ ": " ++ problem.message
  | link error => error.message
  | param text => "invalid --param '" ++ text ++ "': expected KEY=VALUE"
  | notJson path => "error parsing JSON in '" ++ path ++ "': " ++ Wording.document
  | request problem => problem.message

end Policy.Command
