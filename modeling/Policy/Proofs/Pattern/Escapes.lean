import Policy.Proofs.Pattern.Abreast

namespace Policy.Pattern

variable {hash : Prop} {cs cs' l l' : List Char} {verbose : Bool}

/-! ## Characters that are told by numbers -/

/-- The rest of the closing text behind its parenthesis. -/
def ending : List Char := ['\\', 'z']

section

variable {c : Char} {inner rest name more : List Char}

end

end Policy.Pattern
