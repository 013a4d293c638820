import Policy.Decimal

namespace Policy

/-- An integer of 64 bits with a sign. -/
@[ext] structure Number where
  val : Int
  inRange : -9223372036854775808 ≤ val ∧ val ≤ 9223372036854775807
  deriving DecidableEq

namespace Number

def ofInt? (i : Int) : Option Number :=
  if h : -9223372036854775808 ≤ i ∧ i ≤ 9223372036854775807 then some ⟨i, h⟩ else none

theorem ofInt_eq_some_iff {i : Int} {n : Number} : ofInt? i = some n ↔ n.val = i := by
  constructor
  · intro h
    unfold ofInt? at h
    split at h <;> simp at h
    rw [← h]
  · intro h
    subst h
    simp [ofInt?, n.inRange]

theorem ofInt_eq_none_iff {i : Int} :
    ofInt? i = none ↔ i < -9223372036854775808 ∨ 9223372036854775807 < i := by
  unfold ofInt?
  split <;> simp <;> omega

def zero : Number := ⟨0, by decide⟩

instance : Inhabited Number := ⟨zero⟩

def text (n : Number) : String := Decimal.text n.val

/-- The number that a text stands for: digits after at most one sign, within range. -/
def read? (s : String) : Option Number := Decimal.read? s.toList >>= ofInt?

theorem read_text (n : Number) : read? n.text = some n := by
  simp [read?, text, Decimal.text, Decimal.read_write, ofInt_eq_some_iff]

end Number

end Policy
