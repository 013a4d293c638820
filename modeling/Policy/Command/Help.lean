import Policy.Command.Arguments

namespace Policy.Command

/-- What a command does, in a line. -/
def Verb.about : Verb → String
  | compile => "Compile a policy file and print its JSON AST"
  | eval => "Evaluate a policy against one or more requests"
  | validate => "Validate a JSON AST against the rule set schema"

/-- What the file of a command is called, and what it holds. -/
def Verb.operand : Verb → String × String
  | compile => ("<FILE>", "Path to the policy source file")
  | eval => ("<POLICY>", "Policy source file, or a JSON AST when the extension is .json")
  | validate => ("<FILE>", "Path to the JSON AST file")

def Flag.about : Flag → String
  | output => "Output format (text or json) [default: text] [possible values: text, json]"
  | quiet => "Suppress non-essential output"
  | config => "Path to the configuration file (default: ./arbiter.toml when present)"
  | logLevel => "Log level filter, overridden by RUST_LOG"
  | request => "JSON file holding a request object or an array of request objects"
  | param => "Extra request parameter, applied to every request"
  | offline => "Refuse REST calls instead of performing them"
  | failOnError => "Exit with status 1 when any rule fails to evaluate"

namespace Help

def pageWidth : Nat := 100

/-- Sets words into lines of at most this width. A word that is longer has a line of its own. -/
def fill (width : Nat) : (line : String) → List String → List String
  | line, [] => [line]
  | line, word :: words =>
    if line.isEmpty then fill width word words
    else if line.length + 1 + word.length ≤ width then fill width (line ++ " " ++ word) words
    else line :: fill width word words

def blanks (n : Nat) : String := String.ofList (List.replicate n ' ')

/-- What is explained beside its explanation. -/
abbrev Entry := String × String

/-- The lines of an entry, where explanations begin in this column. -/
def entryLines (column : Nat) (e : Entry) : List String :=
  let lead := "  " ++ e.1
  match fill (pageWidth - column) "" (e.2.splitOn " ") with
  | [] => []
  | line :: lines =>
    (lead ++ blanks (column - lead.length) ++ line) :: lines.map (blanks column ++ ·)

/-- A titled list, with an empty line in front. -/
def list (title : String) (entries : List Entry) : List String :=
  let column := (entries.map (·.1.length)).foldl max 0 + 4
  "" :: (title ++ ":") :: entries.flatMap (entryLines column)

def helpAbout : String := "Print this message or the help of the given subcommand(s)"

def commands : List Entry :=
  Verb.all.map (fun verb => (verb.name, verb.about)) ++ [("help", helpAbout)]

def flagEntry (flag : Flag) : Entry :=
  let value := match flag.value? with
    | some value => " <" ++ value ++ ">"
    | none => ""
  ("    --" ++ flag.name ++ value, flag.about)

/-- The flags of a level, those last that are answered at once. -/
def flagEntries (level : Level) : List Entry :=
  level.flags.map flagEntry ++ level.notices.map fun (name, letter, _) =>
    ("-" ++ String.singleton letter ++ ", --" ++ name, "Print " ++ name)

def topicLines : Topic → List String
  | .level .top =>
    ["Arbiter authorization policy toolchain", "", "Usage: arbiter [OPTIONS] <COMMAND>"] ++
      list "Commands" commands ++ list "Options" (flagEntries .top)
  | .level (.within verb) =>
    let required := if verb = .eval then "--request <REQUEST> " else ""
    [verb.about, "",
      "Usage: arbiter " ++ verb.name ++ " [OPTIONS] " ++ required ++ verb.operand.1] ++
      list "Arguments" [verb.operand] ++ list "Options" (flagEntries (.within verb))
  | .help =>
    [helpAbout, "", "Usage: arbiter help [COMMAND]..."] ++
      list "Arguments" [("[COMMAND]...", "Print help for the subcommand(s)")]

/-- The text of the help about a topic. -/
def text (topic : Topic) : String := String.join ((topicLines topic).map (· ++ "\n"))

end Help

def versionText : String := "arbiter 0.1.0\n"

end Policy.Command
