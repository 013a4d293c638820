import Policy.Pattern.Meaning
import Policy.Pattern.Reader

namespace Policy.Pattern

/-- The largest automaton that a pattern may take. -/
def sizeLimit : Nat := 10485760

/-- The matcher of a pattern that is put, as it is written, into a group between the two ends of
the text. -/
def compile? (pattern : String) : Option Matcher := do
  let node ← parse? (['\\', 'A', '(', '?', ':'] ++ pattern.toList ++ [')', '\\', 'z'])
  let (p, _) ← node.matcher .start
  if p.size ≤ sizeLimit then some p else none

/-- Whether a text matches a pattern, if the pattern is one. -/
def test? (pattern text : String) : Option Bool :=
  (compile? pattern).map (·.isMatch text.toList.toArray)

end Policy.Pattern
