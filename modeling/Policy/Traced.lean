import Policy.Decision
import Policy.Value

namespace Policy

/-- What a step of an explanation came to. -/
inductive Finding where
  | value (v : Value)
  | truth (b : Bool)
  | decision (d : Decision)
  | params (params : List (String × Value))
  deriving DecidableEq

/-- A tree that tells by which steps and from which operands something was found. -/
inductive Explanation where
  | node (found : Finding) (label : String) (children : List Explanation)

namespace Explanation

def found : Explanation → Finding
  | node found _ _ => found

def label : Explanation → String
  | node _ label _ => label

def children : Explanation → List Explanation
  | node _ _ children => children

end Explanation

/-- Results that an explanation can show. -/
class Shown (α : Type) where
  finding : α → Finding

instance : Shown Value := ⟨.value⟩

instance : Shown Bool := ⟨.truth⟩

instance : Shown Decision := ⟨.decision⟩

instance : Shown (List (String × Value)) := ⟨.params⟩

/-- A result with the label of the step that found it and the explanations of its operands, or the
fault that left it without a result. -/
inductive Traced (α : Type) where
  | success (value : α) (label : String) (children : List Explanation)
  | failed (fault : Fault)

namespace Traced

variable {α β γ ι : Type} {m : Type → Type} [Monad m]

/-- A result without operands. -/
def leaf (value : α) (label : String) : Traced α := success value label []

def isSuccess : Traced α → Bool
  | success _ _ _ => true
  | failed _ => false

/-- The result without its explanation. -/
def result : Traced α → Except Fault α
  | success value _ _ => .ok value
  | failed fault => .error fault

/-- A result together with its own explanation. -/
def parts [Shown α] : Traced α → Except Fault (α × Explanation)
  | success value label children => .ok (value, .node (Shown.finding value) label children)
  | failed fault => .error fault

def explanation [Shown α] (x : Traced α) : Except Fault Explanation :=
  x.parts.map Prod.snd

/-- A result with the given children. -/
def ofResult (label : String) (children : List Explanation) : Except Fault α → Traced α
  | .ok value => success value label children
  | .error fault => failed fault

/-- Goes on with a step that can fail. -/
def tryMap [Shown α] (f : α → Except Fault β) (label : String) (x : Traced α) : Traced β :=
  match x.parts with
  | .ok (value, node) => ofResult label [node] (f value)
  | .error fault => failed fault

def map [Shown α] (f : α → β) (label : String) (x : Traced α) : Traced β :=
  x.tryMap (fun value => .ok (f value)) label

/-- Joins two results. The fault of the left one comes first. -/
def combine [Shown α] [Shown β] (f : α → β → Except Fault γ) (label : String)
    (x : Traced α) (y : Traced β) : Traced γ :=
  match x.parts with
  | .error fault => failed fault
  | .ok (a, left) =>
    match y.parts with
    | .error fault => failed fault
    | .ok (b, right) => ofResult label [left, right] (f a b)

/-- Puts the explanation of a first result in front of that of a second one. -/
def follow [Shown β] (label : String) (first : Explanation) (x : Traced β) : Traced β :=
  match x.parts with
  | .ok (value, inner) => success value label [first, inner]
  | .error fault => failed fault

/-- Goes on with a computation that depends on the value. -/
def flatMap [Shown α] [Shown β] (f : α → m (Traced β)) (label : String) (x : Traced α) :
    m (Traced β) :=
  match x.parts with
  | .ok (value, first) => do
    let y ← f value
    pure (y.follow label first)
  | .error fault => pure (failed fault)

/-- The parts of all results, or the first fault among them. -/
def allParts [Shown α] : List (Traced α) → Except Fault (List (α × Explanation))
  | [] => .ok []
  | x :: xs => do
    let part ← x.parts
    let parts ← allParts xs
    pure (part :: parts)

/-- Folds results into one. The first fault in the list comes first. -/
def aggregate [Shown α] (f : List α → β) (label : String) (xs : List (Traced α)) : Traced β :=
  match allParts xs with
  | .ok parts => success (f (parts.map Prod.fst)) label (parts.map Prod.snd)
  | .error fault => failed fault

/-- The parts of named entries, which are taken up one by one until the first fault. -/
def entryParts [Shown α] (f : ι → m (Traced α)) :
    List (String × ι) → m (Except Fault (List ((String × α) × Explanation)))
  | [] => pure (.ok [])
  | (name, entry) :: entries => do
    let x ← f entry
    match x.parts with
    | .error fault => pure (.error fault)
    | .ok (value, node) => do
      let parts ← entryParts f entries
      pure (parts.map (((name, value), node) :: ·))

/-- Takes up named entries one by one until the first fault. -/
def traverse [Shown α] (f : ι → m (Traced α)) (label : String) (entries : List (String × ι)) :
    m (Traced (List (String × α))) := do
  match ← entryParts f entries with
  | .ok parts => pure (success (parts.map Prod.fst) label (parts.map Prod.snd))
  | .error fault => pure (failed fault)

end Traced

end Policy
