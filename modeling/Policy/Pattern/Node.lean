import Policy.Pattern.CharSet

namespace Policy.Pattern

/-- A switch that a pattern can turn on and off for what follows. -/
inductive Flag where
  | ignoreCase
  | multiLine
  | dotAll
  | swapGreed
  | wide
  | crlf
  | verbose
  deriving DecidableEq

def Flag.ofLetter? : Char → Option Flag
  | 'i' => some ignoreCase
  | 'm' => some multiLine
  | 's' => some dotAll
  | 'U' => some swapGreed
  | 'u' => some wide
  | 'R' => some crlf
  | 'x' => some verbose
  | _ => none

/-- Switches that are turned on or off together. -/
abbrev FlagChange := List (Flag × Bool)

/-- The value of a switch behind a change. -/
def FlagChange.value (change : FlagChange) (flag : Flag) (before : Bool) : Bool :=
  match change.find? (·.1 = flag) with
  | some (_, on) => on
  | none => before

/-- A place between characters, as a pattern writes it. -/
inductive Anchor where
  | lineStart
  | lineEnd
  | textStart
  | textEnd
  | wordEdge
  | noWordEdge
  | wordStart
  | wordEnd
  | wordStartHalf
  | wordEndHalf
  deriving DecidableEq

inductive Shorthand where
  | digit
  | blank
  | word
  deriving DecidableEq

inductive SetOp where
  | both
  | minus
  | differ
  deriving DecidableEq

/-- What stands in brackets, as written. -/
inductive SetItem where
  | range (low high : Char)
  | shorthand (s : Shorthand) (negated : Bool)
  | posix (ranges : List (Char × Char)) (negated : Bool)
  | property (p : Property) (negated : Bool)
  | bracket (negated : Bool) (inner : SetItem)
  | union (items : List SetItem)
  | combine (op : SetOp) (lhs rhs : SetItem)

/-- A pattern as written. -/
inductive Node where
  | empty
  | flags (change : FlagChange)
  | literal (c : Char)
  | dot
  | anchor (a : Anchor)
  | set (item : SetItem)
  | group (change : FlagChange) (inner : Node)
  | repeated (inner : Node) (least : Nat) (most : Option Nat)
  | seq (nodes : List Node)
  | alt (nodes : List Node)

mutual

def SetItem.height : SetItem → Nat
  | bracket _ inner => inner.height + 1
  | union items => SetItem.heights items + 1
  | combine _ lhs rhs => max lhs.height rhs.height + 1
  | _ => 0

def SetItem.heights : List SetItem → Nat
  | [] => 0
  | item :: items => max item.height (SetItem.heights items)

end

mutual

/-- How deep the parts of a pattern are nested. -/
def Node.height : Node → Nat
  | set item => item.height
  | group _ inner => inner.height + 1
  | repeated inner _ _ => inner.height + 1
  | seq nodes => Node.heights nodes + 1
  | alt nodes => Node.heights nodes + 1
  | _ => 0

def Node.heights : List Node → Nat
  | [] => 0
  | node :: nodes => max node.height (Node.heights nodes)

end

end Policy.Pattern
