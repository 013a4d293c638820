import Policy.Proofs.Pattern.Nodes
import Policy.Proofs.Pattern.Spans
import Policy.Value

namespace Policy.Pattern

/-! ## A pattern on its own -/

/-- What is read of a text, up to its end or to a parenthesis that closes nothing. -/
def reading (text : List Char) : Option Found :=
  readNodes (text.length + 1) ⟨false, []⟩ [] [] text

/-- There is room for what is put around the pattern. -/
def Fits (pattern : String) : Prop :=
  ∀ node p flags, parse? pattern.toList = some node → node.matcher .start = some (p, flags) →
    node.height + 2 ≤ heightLimit ∧ p.size + 96 ≤ sizeLimit

end Policy.Pattern

namespace Policy.Value

open Pattern

end Policy.Value
