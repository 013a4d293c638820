import Policy.Source.Reader

namespace Policy.Source

/-- A parameter `name = attribute` at the front of the tokens, with the position of its sign. -/
def parameter? : List Located → Option (String × Position × String × List Located)
  | ⟨.name name, _⟩ :: ⟨.mark .eq, p⟩ :: ⟨.name ref, _⟩ :: rest => some (name, p, ref, rest)
  | _ => none

/-- Reads parameters with commas between them. A comma that no parameter follows is left to the
rule that the call stands in. -/
def readParameters : (room : Nat) → (seen : List String) → Reader (List (String × String))
  | 0, _, ts => .ok ([], ts)
  | room + 1, seen, ts =>
    match parameter? ts with
    | none => .ok ([], ts)
    | some (name, p, ref, rest) =>
      if seen.contains name then .error ⟨p, .repeatedParameter name⟩
      else if peek rest = .mark .comma && (parameter? rest.tail).isSome then do
        let (params, rest) ← readParameters room (name :: seen) rest.tail
        pure ((name, ref) :: params, rest)
      else .ok ([(name, ref)], rest)

def readCall (method : Method) : Reader (Term String) := fun ts => do
  let (url, rest) ← readString ts
  let (params, rest) ← readParameters rest.length [] rest
  pure (.rest url method params, rest)

/-- A term without operators. `inner` reads a term one level deeper. -/
def readAtom (inner : Reader (Term String)) : Reader (Term String)
  | ⟨.str text, _⟩ :: rest => .ok (.string text, rest)
  | ⟨.int n, _⟩ :: rest => .ok (.number n, rest)
  | ⟨.name text, _⟩ :: rest => .ok (.attr text, rest)
  | ⟨.mark .lparen, _⟩ :: rest => do
    let (t, rest) ← inner rest
    let rest ← expectMark .rparen "')'" rest
    pure (t, rest)
  | ⟨.keyword .string, _⟩ :: rest => do
    let (t, rest) ← inner rest
    pure (.coerce t .string, rest)
  | ⟨.keyword .number, _⟩ :: rest => do
    let (t, rest) ← inner rest
    pure (.coerce t .number, rest)
  | ⟨.keyword .request, _⟩ :: rest => do
    let (key, rest) ← readString rest
    pure (.request key, rest)
  | ⟨.keyword (.method method), _⟩ :: rest => readCall method rest
  | ⟨.keyword k, p⟩ :: _ => .error ⟨p, .reservedWord k⟩
  | ts => expected "term" ts

def factorSign? : Token → Option (Term String → Term String → Term String)
  | .mark .star => some (.binary .times)
  | .mark .slash => some (.binary .divide)
  | _ => none

def addendSign? : Token → Option (Term String → Term String → Term String)
  | .mark .plus => some (.binary .plus)
  | .mark .minus => some (.binary .minus)
  | _ => none

/-- Sums of products of atoms. -/
def readSum (inner : Reader (Term String)) : Reader (Term String) :=
  chain (chain (readAtom inner) factorSign?) addendSign?

/-- A sum, or a sum that is matched against the pattern of another sum. -/
def readTermOver (inner : Reader (Term String)) : Reader (Term String) := fun ts => do
  let (subject, rest) ← readSum inner ts
  match rest with
  | ⟨.keyword .matching, _⟩ :: rest => do
    let (pattern, rest) ← readSum inner rest
    pure (.binary .regex subject pattern, rest)
  | rest => pure (subject, rest)

/-- Reads a term inside of which at most `room` levels open. -/
def readTermAt (limit : Option Nat) : (room depth : Nat) → Reader (Term String)
  | 0, _ => expected "term"
  | room + 1, depth => readTermOver (nested limit depth (readTermAt limit room))

/-- Reads a term. Every level opens with a token, so no more levels open than there are tokens. -/
def readTerm (limit : Option Nat) (depth : Nat) : Reader (Term String) := fun ts =>
  readTermAt limit (ts.length + 1) depth ts

end Policy.Source
