import Policy.Pattern.Node

namespace Policy.Pattern

/-- The switches that decide on the meaning of what follows. -/
structure Flags where
  ignoreCase : Bool
  multiLine : Bool
  dotAll : Bool
  wide : Bool
  crlf : Bool
  deriving DecidableEq

namespace Flags

def start : Flags := ⟨false, false, false, true, false⟩

def apply (flags : Flags) (change : FlagChange) : Flags :=
  ⟨change.value .ignoreCase flags.ignoreCase, change.value .multiLine flags.multiLine,
    change.value .dotAll flags.dotAll, change.value .wide flags.wide,
    change.value .crlf flags.crlf⟩

end Flags

/-- A test of the place between two characters. -/
inductive Look where
  | textStart
  | textEnd
  | lineStart (crlf : Bool)
  | lineEnd (crlf : Bool)
  | wordEdge (wide : Bool)
  | noWordEdge (wide : Bool)
  | wordStart (wide : Bool)
  | wordEnd (wide : Bool)
  | wordStartHalf (wide : Bool)
  | wordEndHalf (wide : Bool)
  deriving DecidableEq

namespace Look

def inWord (wide : Bool) : Option Char → Bool
  | none => false
  | some c => if wide then Unicode.isWord c else c.isAlphanum || c = '_'

/-- Whether the test holds between two neighbours, where none stands for an end of the text. -/
def holds (look : Look) (before after : Option Char) : Bool :=
  match look with
  | textStart => before.isNone
  | textEnd => after.isNone
  | lineStart false => before.isNone || before = some '\n'
  | lineStart true =>
    before.isNone || before = some '\n' || (before = some '\r' && after ≠ some '\n')
  | lineEnd false => after.isNone || after = some '\n'
  | lineEnd true =>
    after.isNone || after = some '\r' || (after = some '\n' && before ≠ some '\r')
  | wordEdge wide => inWord wide before != inWord wide after
  | noWordEdge wide => inWord wide before == inWord wide after
  | wordStart wide => !inWord wide before && inWord wide after
  | wordEnd wide => inWord wide before && !inWord wide after
  | wordStartHalf wide => !inWord wide before
  | wordEndHalf wide => !inWord wide after

end Look

/-- A pattern with its switches worked in. -/
inductive Matcher where
  | empty
  | one (s : CharSet)
  | look (l : Look)
  | seq (p q : Matcher)
  | alt (p q : Matcher)
  | repeated (p : Matcher) (least : Nat) (most : Option Nat)
  deriving DecidableEq

namespace Matcher

/-- Joins two lists of places, each from the last place down. -/
def merge : List Nat → List Nat → List Nat
  | [], js => js
  | is, [] => is
  | i :: is, j :: js =>
    if i = j then i :: merge is js
    else if j < i then i :: merge is (j :: js)
    else j :: merge (i :: is) js

/-- The places of a list that are not in another one, each from the last place down. -/
def without : List Nat → List Nat → List Nat
  | [], _ => []
  | is, [] => is
  | i :: is, j :: js =>
    if i = j then without is js
    else if j < i then i :: without is (j :: js)
    else without (i :: is) js

/-- Takes a step exactly so many times. -/
def times (step : List Nat → List Nat) : Nat → List Nat → List Nat
  | 0, is => is
  | n + 1, is => if is.isEmpty then [] else times step n (step is)

/-- Takes a step up to so many times. Only places that are new are followed any further. -/
def upTo (step : List Nat → List Nat) : Nat → (seen fresh : List Nat) → List Nat
  | 0, seen, _ => seen
  | n + 1, seen, fresh =>
    match without (step fresh) seen with
    | [] => seen
    | fresh => upTo step n (merge fresh seen) fresh

/-- The places that can be reached from some of the given ones, from the last place down. -/
def reach (text : Array Char) : Matcher → List Nat → List Nat
  | empty, is => is
  | one s, is => (is.filter fun i => text[i]?.any s.contains).map (· + 1)
  | look l, is => is.filter fun i => l.holds (if i = 0 then none else text[i - 1]?) text[i]?
  | seq p q, is => q.reach text (p.reach text is)
  | alt p q, is => merge (p.reach text is) (q.reach text is)
  | repeated p least most, is =>
    let first := times (p.reach text) least is
    let more := match most with
      | some most => min (most - least) (text.size + 1)
      | none => text.size + 1
    upTo (p.reach text) more first first

/-- Whether some part of the text matches. -/
def isMatch (p : Matcher) (text : Array Char) : Bool :=
  !(p.reach text (List.range (text.size + 1)).reverse).isEmpty

/-- Whether the matcher takes no characters, whatever the text. -/
def isPointed : Matcher → Bool
  | empty => true
  | one _ => false
  | look _ => true
  | seq p q => p.isPointed && q.isPointed
  | alt p q => p.isPointed && q.isPointed
  | repeated p _ most => p.isPointed || most = some 0

/-- A repetition of what takes no characters is the same as one or none. -/
def repetition (p : Matcher) (least : Nat) (most : Option Nat) : Matcher :=
  if p.isPointed then repeated p (min least 1) (some (min (most.getD 1) 1))
  else repeated p least most

/-- The room that the matcher would take up as an automaton, in bytes, roughly. -/
def size : Matcher → Nat
  | empty => 32
  | one s => if s.isWide then 400 + 80 * s.size else 32 + 8 * s.size
  | look _ => 32
  | seq p q => p.size + q.size
  | alt p q => p.size + q.size + 64
  | repeated p least most =>
    match most with
    | some most => most * p.size + (most - least) * 36 + 32
    | none => max least 1 * p.size + 64

end Matcher

end Policy.Pattern
