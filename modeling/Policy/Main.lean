import Policy.Command.Run

namespace Policy.Main

/-- Whether an error has this number, which systems give with or without a minus sign. -/
def hasNumber (n code : UInt32) : Bool := code = n || code = 0 - n

def readError : IO.Error → ReadError
  | .noFileOrDirectory _ _ _ => .notFound
  | .userError _ => .notText
  | .inappropriateType _ code text =>
    if hasNumber 20 code then .notDirectory
    else if hasNumber 21 code then .isDirectory
    else .other text
  | e => .other (toString e)

def load (path : String) : IO (String × Except ReadError String) := do
  try
    let text ← IO.FS.readFile path
    pure (path, .ok text)
  catch e => pure (path, .error (readError e))

/-- The disk with the files that a command line reads. -/
def diskFor (args : List String) : IO Disk := do
  let paths := match Command.read args with
    | .ok i => i.paths
    | .error _ => []
  let found ← paths.mapM load
  pure fun path => ((found.find? (·.1 = path)).map (·.2)).getD (.error .notFound)

end Policy.Main

/-- Carries out a command line on the files that are there. No address is connected to, so every
call is refused. -/
def main (args : List String) : IO UInt32 := do
  let disk ← Policy.Main.diskFor args
  let outcome := Policy.Command.run disk (fun _ => none) args
  IO.print outcome.stdout
  IO.eprint outcome.stderr
  pure outcome.status.toUInt32
