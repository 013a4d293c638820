import Policy.Http.Exchange
import Policy.Toml.Reader

namespace Policy

/-- What a settings file decides on. -/
structure Settings where
  logLevel : String
  timeout : Nat
  userAgent : String
  restEnabled : Bool
  deriving DecidableEq

namespace Settings

def default : Settings := ⟨"warn", 5000, Http.defaultUserAgent, true⟩

def setLevel (settings : Settings) : Toml → Option Settings
  | .string level => some { settings with logLevel := level }
  | _ => none

def setTimeout (settings : Settings) : Toml → Option Settings
  | .integer (.ofNat n) => some { settings with timeout := n }
  | _ => none

def setUserAgent (settings : Settings) : Toml → Option Settings
  | .string agent => some { settings with userAgent := agent }
  | _ => none

def setEnabled (settings : Settings) : Toml → Option Settings
  | .boolean b => some { settings with restEnabled := b }
  | _ => none

/-- A place in a settings file with the change that its value makes. -/
abbrev Setter := Settings → Toml → Option Settings

/-- Takes members by name. Names without a setter are refused. -/
def setNamed (setters : List (String × Setter)) (settings : Settings)
    (members : List (String × Toml)) : Option Settings :=
  members.foldlM (fun settings (name, x) => do
    let setter ← (setters.find? (·.1 = name)).map (·.2)
    setter settings x) settings

/-- Takes items by place. Items without a setter do not count. -/
def setPlaced (setters : List (String × Setter)) (settings : Settings)
    (items : List Toml) : Option Settings :=
  (setters.zip items).foldlM (fun settings ((_, setter), x) => setter settings x) settings

/-- A section is a table, or a list with its values in order. -/
def section? (setters : List (String × Setter)) : Setter := fun settings x =>
  match x with
  | .table members => setNamed setters settings members
  | .array items => setPlaced setters settings items
  | _ => none

def logSection : List (String × Setter) := [("level", setLevel)]

def restSection : List (String × Setter) :=
  [("timeout_ms", setTimeout), ("user_agent", setUserAgent), ("enabled", setEnabled)]

/-- The settings of a file. What it does not mention keeps its default. -/
def read? (text : String) : Option Settings := do
  let members ← Toml.read text
  setNamed [("log", section? logSection), ("rest", section? restSection)] default members

end Settings

end Policy
