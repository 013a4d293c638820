import Policy.Proofs.Pattern.Sets

namespace Policy.Pattern

variable {hash : Prop} {cs cs' l l' : List Char} {verbose : Bool}

/-! ## Repetition counts -/

theorem Place.dropLazy (p : Place hash cs cs' l l') :
    Place hash cs cs' (dropLazy l) (dropLazy l') := by
  have other {m : List Char} (h : m.head? ≠ some '?') : Pattern.dropLazy m = m := by
    rw [Pattern.dropLazy]
    rintro rest rfl
    exact h rfl
  obtain ⟨r, r', rfl, rfl, q⟩ | ⟨h, h'⟩ := p.either (show '?' ≠ ')' by decide)
  · exact q
  · rw [other h, other h']
    exact p

/-! ## Openings of groups -/

/-- What a group with a name starts. -/
def named (found : String × List Char) : Option (Opening × List Char) :=
  some (.group [] (some found.1), found.2)

end Policy.Pattern
