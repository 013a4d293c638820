import Policy.Proofs.Pattern.Groups

namespace Policy.Pattern

variable {hash : Prop} {cs cs' l l' : List Char}

/-! ## The steps of the reader -/

/-- The bounds of a repetition that is told by a single character. -/
def quantifier? : Char → Option (Nat × Option Nat)
  | '?' => some (0, some 1)
  | '*' => some (0, none)
  | '+' => some (1, none)
  | _ => none

/-- Characters that are not a node on their own. -/
def isSpecial (c : Char) : Bool :=
  [')', '|', '(', '[', '\x7b', '\\'].contains c || (quantifier? c).isSome

/-- What a character leads to where an item may stand. -/
inductive Lead : Char → Prop
  | close : Lead ')'
  | branch : Lead '|'
  | group : Lead '('
  | set : Lead '['
  | bounds : Lead '\x7b'
  | escape : Lead '\\'
  | quantifier {c : Char} {least : Nat} {most : Option Nat}
      (h : quantifier? c = some (least, most)) : Lead c
  | plain {c : Char} (h : isSpecial c = false) : Lead c

theorem lead (c : Char) : Lead c := by
  cases hq : quantifier? c with
  | some bounds => exact .quantifier hq
  | none =>
    by_cases hc : [')', '|', '(', '[', '\x7b', '\\'].contains c = true
    · simp only [List.contains_cons, List.contains_nil, Bool.or_false, Bool.or_eq_true,
        beq_iff_eq] at hc
      obtain rfl | rfl | rfl | rfl | rfl | rfl := hc
      · exact .close
      · exact .branch
      · exact .group
      · exact .set
      · exact .bounds
      · exact .escape
    · exact .plain (by simp only [isSpecial, hc, hq]; rfl)

abbrev Found := Node × Mode × List Char

section

variable {room : Nat} {mode : Mode} {branches items : List Node} {rest : List Char} {x : Char}

end

/-! ## Where the reader stops -/

/-- What is found is found with more room as well. -/
def Kept (room room' : Nat) : Prop :=
  ∀ {mode : Mode} {branches items : List Node} {cs : List Char} {found : Found},
    readNodes room mode branches items cs = some found →
      readNodes room' mode branches items cs = some found

end Policy.Pattern
