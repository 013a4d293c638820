import Policy.Proofs.Outcome
import Policy.Value
import Mathlib.Data.List.Induction

namespace Policy

/-! ## Decimal numerals

What a text of digits stands for, told apart from how it is read. -/

namespace Decimal

/-- Digits that stand for a number. With one more digit behind them they count ten times. -/
inductive Digits : List Char → Nat → Prop
  | one {d} (hd : d < 10) : Digits [Nat.digitChar d] d
  | more {ds n d} (h : Digits ds n) (hd : d < 10) : Digits (ds ++ [Nat.digitChar d]) (10 * n + d)

/-- Digits after at most one sign, with the integer that they stand for. -/
inductive Numeral : List Char → Int → Prop
  | bare {ds n} (h : Digits ds n) : Numeral ds n
  | plus {ds n} (h : Digits ds n) : Numeral ('+' :: ds) n
  | minus {ds n} (h : Digits ds n) : Numeral ('-' :: ds) (-n)

variable {cs ds : List Char}

theorem digitChar_of_isDigit {c : Char} (h : c.isDigit = true) : ∃ d < 10, c = Nat.digitChar d := by
  obtain ⟨hleast, hmost⟩ := Char.isDigit_iff_toNat.mp h
  have hzero : '0'.toNat = 48 := rfl
  have hnine : '9'.toNat = 57 := rfl
  have hlt : c.toNat - 48 < 10 := by omega
  refine ⟨c.toNat - 48, hlt, Char.toNat_inj.mp ?_⟩
  rw [Nat.toNat_digitChar_of_lt_ten hlt]
  omega

theorem ofDigitChars_append_digit {d : Nat} (hd : d < 10) :
    Nat.ofDigitChars 10 (ds ++ [Nat.digitChar d]) 0 = 10 * Nat.ofDigitChars 10 ds 0 + d := by
  have hzero : '0'.toNat = 48 := rfl
  rw [Nat.ofDigitChars_append, Nat.ofDigitChars_cons, Nat.ofDigitChars_nil,
    Nat.toNat_digitChar_of_lt_ten hd]
  omega

theorem isDigits_iff : isDigits ds = true ↔ ds ≠ [] ∧ ∀ c ∈ ds, c.isDigit = true := by
  cases ds with
  | nil => simp [isDigits]
  | cons c cs => simp [isDigits]

namespace Digits

variable {n : Nat}

theorem ne_nil (h : Digits ds n) : ds ≠ [] := by
  cases h with
  | one hd => simp
  | more h hd => simp

theorem isDigit (h : Digits ds n) : ∀ c ∈ ds, c.isDigit = true := by
  induction h with
  | one hd => simpa [Nat.isDigit_digitChar] using hd
  | more h hd ih =>
    refine List.forall_mem_append.mpr ⟨ih, ?_⟩
    simpa [Nat.isDigit_digitChar] using hd

theorem value (h : Digits ds n) : Nat.ofDigitChars 10 ds 0 = n := by
  induction h with
  | one hd =>
    have hone := @ofDigitChars_append_digit [] _ hd
    simpa using hone
  | more h hd ih => rw [ofDigitChars_append_digit hd, ih]

/-- By induction from behind, where a digit more was written. -/
theorem of_isDigit (hne : ds ≠ []) (h : ∀ c ∈ ds, c.isDigit = true) :
    Digits ds (Nat.ofDigitChars 10 ds 0) := by
  induction ds using List.reverseRecOn with
  | nil => exact absurd rfl hne
  | append_singleton ds c ih =>
    obtain ⟨hds, hc⟩ := List.forall_mem_append.mp h
    obtain ⟨d, hd, rfl⟩ := digitChar_of_isDigit (hc c (List.mem_singleton_self c))
    rw [ofDigitChars_append_digit hd]
    by_cases hfront : ds = []
    · rw [hfront]
      simpa using Digits.one hd
    · exact .more (ih hfront hds) hd

end Digits

theorem digits_iff {n : Nat} :
    Digits ds n ↔ isDigits ds = true ∧ Nat.ofDigitChars 10 ds 0 = n := by
  rw [isDigits_iff]
  constructor
  · intro h
    exact ⟨⟨h.ne_nil, h.isDigit⟩, h.value⟩
  · rintro ⟨⟨hne, hdigits⟩, rfl⟩
    exact .of_isDigit hne hdigits

/-- A sign is no digit. -/
theorem Digits.head {c : Char} {n : Nat} (h : Digits (c :: cs) n) : c ≠ '-' ∧ c ≠ '+' := by
  have hc := h.isDigit c List.mem_cons_self
  constructor
  · rintro rfl
    cases hc
  · rintro rfl
    cases hc

theorem read_of_digits {n : Nat} (h : Digits cs n) : read? cs = some (n : Int) := by
  obtain ⟨hdigits, hvalue⟩ := digits_iff.mp h
  unfold read?
  split
  · exact absurd rfl h.head.1
  · exact absurd rfl h.head.2
  · rw [if_pos hdigits, hvalue]

/-- Exactly the decimal numerals are read, and as the integers that they stand for. -/
theorem read_eq_some_iff {i : Int} : read? cs = some i ↔ Numeral cs i := by
  constructor
  · intro h
    unfold read? at h
    split at h
    · obtain ⟨hdigits, heq⟩ := Option.ite_none_right_eq_some.mp h
      cases heq
      exact .minus (digits_iff.mpr ⟨hdigits, rfl⟩)
    · obtain ⟨hdigits, heq⟩ := Option.ite_none_right_eq_some.mp h
      cases heq
      exact .plus (digits_iff.mpr ⟨hdigits, rfl⟩)
    · obtain ⟨hdigits, heq⟩ := Option.ite_none_right_eq_some.mp h
      cases heq
      exact .bare (digits_iff.mpr ⟨hdigits, rfl⟩)
  · intro h
    cases h with
    | bare h => exact read_of_digits h
    | plus h | minus h =>
      obtain ⟨hdigits, hvalue⟩ := digits_iff.mp h
      rw [read?, if_pos hdigits, hvalue]

end Decimal

/-! ## Values that stand for numbers -/

theorem Number.read_eq_some_iff {text : String} {n : Number} :
    read? text = some n ↔ Decimal.Numeral text.toList n.val := by
  rw [read?, ← Decimal.read_eq_some_iff]
  simp [Option.bind_eq_some_iff, ofInt_eq_some_iff]

namespace Value

/-- A number stands for itself, and a decimal numeral for the integer that it shows, within the
range of numbers. -/
inductive StandsFor : Value → Number → Prop
  | number {n} : StandsFor (number n) n
  | string {text n} (h : Decimal.Numeral text.toList n.val) : StandsFor (string text) n

/-- A value that stands for no number, with what is told about it. -/
inductive NotNumeric : Value → Misfit → Prop
  | string {text} (h : ∀ n : Number, ¬ Decimal.Numeral text.toList n.val) :
    NotNumeric (string text) (.notNumeric text)
  | truth {b} : NotNumeric (truth b) .truthAsNumber

theorem numeric_eq_ok_iff {text : String} {n : Number} :
    numeric text = .ok n ↔ Number.read? text = some n := by
  unfold numeric
  cases Number.read? text with
  | none => simp
  | some m => simp

theorem numeric_eq_error_iff {text : String} {fault : Fault} :
    numeric text = .error fault ↔
      Number.read? text = none ∧ fault = .misfit (.notNumeric text) := by
  unfold numeric
  cases Number.read? text with
  | none => simp [eq_comm]
  | some m => simp

/-- Exactly the values that stand for a number are taken as that number. -/
theorem toNumber_eq_ok_iff {v : Value} {n : Number} : v.toNumber = .ok n ↔ v.StandsFor n := by
  constructor
  · intro h
    cases v with
    | number m =>
      cases h
      exact .number
    | string text => exact .string (Number.read_eq_some_iff.mp (numeric_eq_ok_iff.mp h))
    | truth b => cases h
  · intro h
    cases h with
    | number => rfl
    | string h => exact numeric_eq_ok_iff.mpr (Number.read_eq_some_iff.mpr h)

theorem toNumber_eq_error_iff {v : Value} {fault : Fault} :
    v.toNumber = .error fault ↔ ∃ why, fault = .misfit why ∧ v.NotNumeric why := by
  constructor
  · intro h
    cases v with
    | number m => cases h
    | string text =>
      obtain ⟨hnone, rfl⟩ := numeric_eq_error_iff.mp h
      refine ⟨_, rfl, .string fun n hn => ?_⟩
      rw [Number.read_eq_some_iff.mpr hn] at hnone
      cases hnone
    | truth b =>
      cases h
      exact ⟨_, rfl, .truth⟩
  · rintro ⟨why, rfl, h⟩
    cases h with
    | truth => rfl
    | string h =>
      refine numeric_eq_error_iff.mpr ⟨?_, rfl⟩
      rw [Option.eq_none_iff_forall_ne_some]
      exact fun n hn => h n (Number.read_eq_some_iff.mp hn)

theorem StandsFor.unique {v : Value} {m n : Number} (hm : v.StandsFor m) (hn : v.StandsFor n) :
    m = n :=
  Except.ok.inj ((toNumber_eq_ok_iff.mpr hm).symm.trans (toNumber_eq_ok_iff.mpr hn))

theorem standsFor_or_notNumeric (v : Value) : (∃ n, v.StandsFor n) ∨ ∃ why, v.NotNumeric why := by
  cases h : v.toNumber with
  | ok n => exact .inl ⟨n, toNumber_eq_ok_iff.mp h⟩
  | error fault =>
    obtain ⟨why, -, hwhy⟩ := toNumber_eq_error_iff.mp h
    exact .inr ⟨why, hwhy⟩

end Value

end Policy
