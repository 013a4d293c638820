namespace Policy.Command

/-- How reports are written. -/
inductive Format where
  | text
  | json
  deriving DecidableEq

def Format.ofName? : String → Option Format
  | "text" => some text
  | "json" => some json
  | _ => none

/-- What can be done with a policy. -/
inductive Verb where
  | compile
  | eval
  | validate
  deriving DecidableEq

def Verb.name : Verb → String
  | compile => "compile"
  | eval => "eval"
  | validate => "validate"

def Verb.all : List Verb := [compile, eval, validate]

def Verb.ofName? (name : String) : Option Verb := all.find? (·.name = name)

/-- Words stand in front of a command or behind it. -/
inductive Level where
  | top
  | within (verb : Verb)
  deriving DecidableEq

/-- What help can be asked about. -/
inductive Topic where
  | level (level : Level)
  | help
  deriving DecidableEq

def Topic.ofName? : String → Option Topic
  | "help" => some help
  | name => (Verb.ofName? name).map fun verb => level (.within verb)

/-- What is answered in place of a command. -/
inductive Notice where
  | help (topic : Topic)
  | version
  | misuse
  deriving DecidableEq

inductive Flag where
  | output
  | quiet
  | config
  | logLevel
  | request
  | param
  | offline
  | failOnError
  deriving DecidableEq

namespace Flag

def name : Flag → String
  | output => "output"
  | quiet => "quiet"
  | config => "config"
  | logLevel => "log-level"
  | request => "request"
  | param => "param"
  | offline => "offline"
  | failOnError => "fail-on-error"

/-- What the value of a flag is called, for those that have one. -/
def value? : Flag → Option String
  | output => some "OUTPUT"
  | config => some "CONFIG"
  | logLevel => some "LOG_LEVEL"
  | request => some "REQUEST"
  | param => some "KEY=VALUE"
  | quiet | offline | failOnError => none

/-- Whether a flag can have this value. Paths are not empty. -/
def admits : Flag → String → Bool
  | output, value => (Format.ofName? value).isSome
  | config, value | request, value => !value.isEmpty
  | _, _ => true

/-- Whether a flag can be given more than once. -/
def repeats (flag : Flag) : Bool := flag = param

end Flag

namespace Level

/-- The flags of a level. Those of the top are known to all commands. -/
def flags : Level → List Flag
  | within .eval => [.output, .request, .param, .quiet, .config, .offline, .failOnError, .logLevel]
  | _ => [.output, .quiet, .config, .logLevel]

/-- The flags that are answered at once. -/
def notices (level : Level) : List (String × Char × Notice) :=
  ("help", 'h', .help (.level level)) ::
    match level with
    | top => [("version", 'V', .version)]
    | within _ => []

/-- How many words are not flags. Every command is about one file. -/
def operands : Level → Nat
  | top => 0
  | within _ => 1

end Level

/-- A flag that waits for its value, or whose value has not been checked yet. -/
inductive Pending where
  | nothing
  | awaiting (flag : Flag)
  | held (flag : Flag) (value : String)
  deriving DecidableEq

/-- The words of a level so far. -/
structure Words where
  flags : List (Flag × String)
  operands : List String
  pending : Pending
  onlyOperands : Bool
  deriving DecidableEq

namespace Words

def empty : Words := ⟨[], [], .nothing, false⟩

def values (w : Words) (flag : Flag) : List String :=
  (w.flags.filter (·.1 = flag)).map (·.2)

def value? (w : Words) (flag : Flag) : Option String := (w.values flag).head?

def has (w : Words) (flag : Flag) : Bool := (w.value? flag).isSome

def give (w : Words) (flag : Flag) (value : String) : Except Notice Words :=
  if flag.admits value && (flag.repeats || !w.has flag) then
    .ok { w with flags := w.flags ++ [(flag, value)] }
  else .error .misuse

/-- Checks the value that was read last. -/
def settle (w : Words) : Except Notice Words :=
  match w.pending with
  | .nothing => .ok w
  | .awaiting _ => .error .misuse
  | .held flag value => { w with pending := .nothing }.give flag value

def awaits (w : Words) : Bool :=
  match w.pending with
  | .awaiting _ => true
  | _ => false

end Words

namespace Level

/-- Answers at once, once all values in front are in order. -/
def notify (w : Words) (notice : Notice) : Except Notice Words := do
  let _ ← w.settle
  .error notice

/-- Takes a flag that may carry its value behind an equals sign. -/
def takeLong (level : Level) (w : Words) (word : List Char) : Except Notice Words :=
  let name := String.ofList (word.takeWhile (· ≠ '='))
  let attached := (word.dropWhile (· ≠ '=')).tail?.map String.ofList
  match level.notices.find? (·.1 = name), attached with
  | some (_, _, notice), none => notify w notice
  | some _, some _ => .error .misuse
  | none, attached =>
    match level.flags.find? (·.name = name) with
    | none => .error .misuse
    | some flag =>
      match flag.value?, attached with
      | none, none => do
        let w ← w.settle
        w.give flag ""
      | none, some _ => .error .misuse
      | some _, none => do
        let w ← w.settle
        pure { w with pending := .awaiting flag }
      | some _, some value => do
        let w ← w.settle
        w.give flag value

/-- Takes letters behind one dash, of which the first decides. -/
def takeShort (level : Level) (w : Words) (letter : Char) : Except Notice Words :=
  match level.notices.find? (·.2.1 = letter) with
  | some (_, _, notice) => notify w notice
  | none => .error .misuse

def takeOperand (level : Level) (w : Words) (word : String) : Except Notice Words := do
  let w ← w.settle
  if w.operands.length < level.operands && !word.isEmpty then
    .ok { w with operands := w.operands ++ [word] }
  else .error .misuse

/-- Takes one more word. Two dashes alone end the flags. -/
def take (level : Level) (w : Words) (word : String) : Except Notice Words :=
  if w.onlyOperands then level.takeOperand w word
  else
    match word.toList with
    | ['-', '-'] => .ok { w with onlyOperands := true }
    | '-' :: '-' :: rest => level.takeLong w rest
    | '-' :: letter :: _ => level.takeShort w letter
    | _ =>
      match w.pending with
      | .awaiting flag => .ok { w with pending := .held flag word }
      | _ => level.takeOperand w word

/-- Whether a word begins a command. The value that a flag waits for does not. -/
def endsAt (level : Level) (w : Words) (word : String) : Bool :=
  level = top && !w.onlyOperands && !w.awaits && (Topic.ofName? word).isSome

/-- Takes the words of a level. The rest begins with a command. -/
def read (level : Level) : Words → List String → Except Notice (Words × List String)
  | w, [] => .ok (w, [])
  | w, word :: words =>
    if level.endsAt w word then .ok (w, word :: words)
    else do
      let w ← level.take w word
      read level w words

end Level

/-- A command with all that it needs to know. -/
inductive Task where
  | compile (file : String)
  | eval (policy request : String) (params : List String) (offline failOnError : Bool)
  | validate (file : String)
  deriving DecidableEq

/-- What a command line asks for. -/
structure Invocation where
  format : Format
  quiet : Bool
  config : Option String
  logLevel : Option String
  task : Task
  deriving DecidableEq

def Words.task? (w : Words) (verb : Verb) : Option Task := do
  let file ← w.operands.head?
  match verb with
  | .compile => pure (.compile file)
  | .eval => do
    let request ← w.value? .request
    pure (.eval file request (w.values .param) (w.has .offline) (w.has .failOnError))
  | .validate => pure (.validate file)

/-- Puts the words in front of the command and behind it together. A flag of the command wins. -/
def invocation? (outer inner : Words) (verb : Verb) : Option Invocation := do
  let task ← inner.task? verb
  let value? (flag : Flag) := inner.value? flag <|> outer.value? flag
  let format := ((value? .output).bind Format.ofName?).getD .text
  pure ⟨format, (value? .quiet).isSome, value? .config, value? .logLevel, task⟩

/-- What help is asked about by the words behind `help`. -/
def helpOn : List String → Notice
  | [] => .help (.level .top)
  | [name] =>
    match Topic.ofName? name with
    | some topic => .help topic
    | none => .misuse
  | _ => .misuse

/-- What a command line asks for, unless it is answered at once. -/
def read (args : List String) : Except Notice Invocation := do
  let (outer, rest) ← Level.top.read .empty args
  match rest with
  | [] => .error .misuse
  | name :: words =>
    match Verb.ofName? name with
    | none => .error (helpOn words)
    | some verb => do
      let (inner, _) ← (Level.within verb).read .empty words
      let inner ← inner.settle
      let outer ← outer.settle
      match invocation? outer inner verb with
      | some i => .ok i
      | none => .error .misuse

end Policy.Command
