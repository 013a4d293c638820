import Policy.Command.Arguments
import Policy.Command.Failure
import Policy.Document.Reading
import Policy.Settings

namespace Policy.Command

def settingsPath : String := "arbiter.toml"

/-- The settings of the file that a command line names, or else of the usual one, which need not be
there. -/
def loadSettings (disk : Disk) (named : Option String) : Except Failure Settings :=
  if named.isNone && !disk.isFile settingsPath then .ok .default
  else
    let path := named.getD settingsPath
    match disk path with
    | .error e => .error (.settingsUnread path e)
    | .ok text =>
      match Settings.read? text with
      | none => .error (.settingsMalformed path)
      | some settings => .ok settings

/-- The rule set of a file with policy text. -/
def loadSource (disk : Disk) (path : String) : Except Failure (RuleSet Slot) :=
  match disk path with
  | .error e => .error (.policyUnread path e)
  | .ok text =>
    match compile path text with
    | .error e => .error (.policy e)
    | .ok set => .ok set

def loadText (disk : Disk) (path : String) : Except Failure String :=
  match disk path with
  | .error e => .error (.unread path e)
  | .ok text => .ok text

/-- The rule set of a file with a document. -/
def loadDocument (disk : Disk) (path : String) : Except Failure (RuleSet Slot) := do
  let text ← loadText disk path
  match Document.read text with
  | .error problem => .error (.document path problem)
  | .ok set =>
    match set.link with
    | .error e => .error (.link e)
    | .ok set => .ok set

/-- Whether the last name of a path ends in `.json`, with something in front. -/
def namesDocument (path : String) : Bool :=
  match ((Disk.names path.toList).filter (!Disk.isHere ·)).getLast? with
  | some name =>
    let ending := ['.', 'j', 's', 'o', 'n']
    ending.isSuffixOf name && ending.length < name.length
  | none => false

/-- The rule set of a file, as policy text or as a document by the ending of its name. -/
def loadPolicy (disk : Disk) (path : String) : Except Failure (RuleSet Slot) :=
  if namesDocument path then loadDocument disk path else loadSource disk path

def loadJson (disk : Disk) (path : String) : Except Failure Json := do
  let text ← loadText disk path
  match Json.read text with
  | none => .error (.notJson path)
  | some doc => .ok doc

/-- The requests of a file, with parameters put over all of them. -/
def loadRequests (disk : Disk) (path : String) (params : List String) :
    Except Failure Requests := do
  match readParams params with
  | .error text => .error (.param text)
  | .ok params =>
    let doc ← loadJson disk path
    match Requests.ofJson doc with
    | .error problem => .error (.request problem)
    | .ok requests => .ok (requests.map (overlay params))

end Policy.Command
