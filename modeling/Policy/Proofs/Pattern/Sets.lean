import Policy.Proofs.Pattern.Escapes

namespace Policy.Pattern

variable {hash : Prop} {cs cs' l l' : List Char} {verbose : Bool}

/-! ## Classes with a name -/

/-- A leading caret, and what is made of the text behind it. -/
def negation (behind : List Char → List Char) : List Char → Bool × List Char
  | '^' :: cs => (true, behind cs)
  | cs => (false, cs)

section

variable {room : Nat} {pending : Pending} {items : List SetItem} {x : Char} {rest : List Char}

end

end Policy.Pattern
