namespace Policy.Decimal

def isDigits (cs : List Char) : Bool :=
  !cs.isEmpty && cs.all Char.isDigit

/-- The decimal digits of an integer after its sign. A positive number has no sign. -/
def write : Int → List Char
  | .ofNat n => Nat.toDigits 10 n
  | .negSucc n => '-' :: Nat.toDigits 10 (n + 1)

/-- Reads digits after at most one sign. Leading zeros are allowed, an empty digit run is not. -/
def read? : List Char → Option Int
  | '-' :: ds => if isDigits ds then some (-(Nat.ofDigitChars 10 ds 0)) else none
  | '+' :: ds => if isDigits ds then some (Nat.ofDigitChars 10 ds 0) else none
  | ds => if isDigits ds then some (Nat.ofDigitChars 10 ds 0) else none

def text (n : Int) : String := String.ofList (write n)

theorem isDigits_toDigits (n : Nat) : isDigits (Nat.toDigits 10 n) = true := by
  have h : ∀ c ∈ Nat.toDigits 10 n, c.isDigit = true :=
    fun c hc => Nat.isDigit_of_mem_toDigits (by decide) (by decide) hc
  simpa [isDigits] using h

theorem read_write (n : Int) : read? (write n) = some n := by
  cases n with
  | negSucc n =>
    simp [write, read?, isDigits_toDigits, Nat.ofDigitChars_toDigits, Int.negSucc_eq]
  | ofNat n =>
    have h : ∀ c ∈ Nat.toDigits 10 n, c.isDigit = true :=
      fun c hc => Nat.isDigit_of_mem_toDigits (by decide) (by decide) hc
    have hd := isDigits_toDigits n
    have hv : Nat.ofDigitChars 10 (Nat.toDigits 10 n) 0 = n := by
      simp [Nat.ofDigitChars_toDigits]
    simp only [write]
    generalize Nat.toDigits 10 n = ds at h hd hv
    unfold read?
    split
    · exact absurd (h '-' (by simp)) (by decide)
    · exact absurd (h '+' (by simp)) (by decide)
    · simp [hd, hv]

end Policy.Decimal
