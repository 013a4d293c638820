import Policy.Proofs.Value.Numeral
import Mathlib.Data.Int.DivMod

namespace Policy

/-! ## Exact results

What the operators mean on integers of any size, and which of the results are numbers. -/

namespace Number

/-- The integers that numbers can hold. -/
def InRange (i : Int) : Prop := -9223372036854775808 ≤ i ∧ i ≤ 9223372036854775807

theorem ofInt_eq_none_iff_inRange {i : Int} : ofInt? i = none ↔ ¬ InRange i := by
  rw [ofInt_eq_none_iff, InRange]
  omega

end Number

/-- The quotient of a division towards zero: it leaves less than the divisor, with the sign of the
dividend. -/
def IsQuotient (a b q : Int) : Prop := ∃ r, a = b * q + r ∧ r.natAbs < b.natAbs ∧ 0 ≤ a * r

/-- The exact result of an arithmetic operator. -/
def IsExact : Operator → Int → Int → Int → Prop
  | .plus, a, b, i => i = a + b
  | .minus, a, b, i => i = a - b
  | .times, a, b, i => i = a * b
  | .divide, a, b, i => IsQuotient a b i
  | .regex, _, _, _ => False

section Quotients

variable {a b q r : Int}

theorem isQuotient_tdiv (a : Int) (hb : b ≠ 0) : IsQuotient a b (a.tdiv b) := by
  refine ⟨a.tmod b, ?_, ?_, ?_⟩
  · rw [Int.mul_tdiv_add_tmod]
  · rw [Int.natAbs_tmod]
    exact Nat.mod_lt _ (Int.natAbs_pos.mpr hb)
  · rcases Int.le_total 0 a with ha | ha
    · exact Int.mul_nonneg ha (Int.tmod_nonneg b ha)
    · have hneg : 0 ≤ (-a).tmod b := Int.tmod_nonneg b (by omega)
      rw [Int.neg_tmod] at hneg
      exact Int.mul_nonneg_of_nonpos_of_nonpos ha (by omega)

/-- What a division of nothing leaves is a multiple of the divisor, and less than it. -/
theorem remainder_nonneg (heq : a = b * q + r) (hlt : r.natAbs < b.natAbs) (hsign : 0 ≤ a * r)
    (ha : 0 ≤ a) : 0 ≤ r := by
  rcases Int.lt_or_eq_of_le ha with hpos | rfl
  · exact Int.nonneg_of_mul_nonneg_right hsign hpos
  · have hdvd : b ∣ r := ⟨-q, by rw [Int.mul_neg]; omega⟩
    have hzero : r = 0 := Int.eq_zero_of_dvd_of_natAbs_lt_natAbs hdvd hlt
    exact Int.le_of_eq hzero.symm

theorem remainder_nonpos (heq : a = b * q + r) (hlt : r.natAbs < b.natAbs) (hsign : 0 ≤ a * r)
    (ha : a ≤ 0) : r ≤ 0 := by
  have hneg : 0 ≤ -r := by
    apply remainder_nonneg (a := -a) (b := b) (q := -q)
    · rw [Int.mul_neg]
      omega
    · rwa [Int.natAbs_neg]
    · rwa [Int.neg_mul_neg]
    · omega
  omega

/-- There is one quotient for every divisor but zero. -/
theorem isQuotient_iff : IsQuotient a b q ↔ b ≠ 0 ∧ q = a.tdiv b := by
  constructor
  · rintro ⟨r, heq, hlt, hsign⟩
    have hb : b ≠ 0 := by
      rintro rfl
      exact Nat.not_lt_zero _ hlt
    refine ⟨hb, ?_⟩
    rcases Int.le_total 0 a with ha | ha
    · have hr : 0 ≤ r := remainder_nonneg heq hlt hsign ha
      have hunique := (Int.tdiv_tmod_unique (q := q) (r := r) ha hb).mpr
        ⟨by omega, hr, by omega⟩
      exact hunique.1.symm
    · have hr : r ≤ 0 := remainder_nonpos heq hlt hsign ha
      have hunique := (Int.tdiv_tmod_unique' (q := q) (r := r) ha hb).mpr
        ⟨by omega, by omega, hr⟩
      exact hunique.1.symm
  · rintro ⟨hb, rfl⟩
    exact isQuotient_tdiv a hb

/-- Dividing by more than one makes any number small enough. -/
theorem inRange_quotient (ha : Number.InRange a) (h : IsQuotient a b q) (hb : 2 ≤ b.natAbs) :
    Number.InRange q := by
  obtain ⟨-, rfl⟩ := isQuotient_iff.mp h
  have hhalf : (a.tdiv b).natAbs ≤ a.natAbs / 2 := by
    rw [Int.natAbs_tdiv]
    exact Nat.div_le_div_left hb (by decide)
  obtain ⟨hleast, hmost⟩ := ha
  constructor
  · omega
  · omega

/-- Of all quotients of numbers only one is out of range. -/
theorem quotient_out_of_range_iff (ha : Number.InRange a) (h : IsQuotient a b q) :
    ¬ Number.InRange q ↔ a = -9223372036854775808 ∧ b = -1 := by
  obtain ⟨hb, hq⟩ := isQuotient_iff.mp h
  have hsize : b = 1 ∨ b = -1 ∨ 2 ≤ b.natAbs := by omega
  rcases hsize with rfl | rfl | hsize
  · rw [Int.tdiv_one] at hq
    have hne : (1 : Int) ≠ -1 := by decide
    simp [hq, ha, hne]
  · rw [Int.tdiv_neg, Int.tdiv_one] at hq
    obtain ⟨hleast, hmost⟩ := ha
    simp only [hq, Number.InRange, and_true]
    omega
  · have hin : Number.InRange q := inRange_quotient ha h hsize
    have hne : b ≠ -1 := by
      rintro rfl
      exact absurd hsize (by decide)
    simp [hin, hne]

end Quotients

theorem isExact_iff {op : Operator} (hop : op ≠ .regex) {a b i : Int} :
    IsExact op a b i ↔ (op = .divide → b ≠ 0) ∧ i = Value.exact op a b := by
  cases op with
  | plus | minus | times => simp [IsExact, Value.exact]
  | divide => simp [IsExact, Value.exact, isQuotient_iff]
  | regex => exact absurd rfl hop

/-! ## Operators on numbers -/

namespace Value

section Numbers

variable {op : Operator} (hop : op ≠ .regex) {m n : Number}

theorem calculate_by_zero (hdivide : op = .divide) (hn : n.val = 0) :
    calculate op m n = .error .divisionByZero := by
  simp [calculate, hdivide, hn]

include hop

theorem by_zero_or_exact (m n : Number) :
    (op = .divide ∧ n.val = 0) ∨ ∃ i, IsExact op m.val n.val i := by
  by_cases hzero : op = .divide ∧ n.val = 0
  · exact .inl hzero
  · have hdivisor : op = .divide → n.val ≠ 0 := fun hdivide hn => hzero ⟨hdivide, hn⟩
    exact .inr ⟨exact op m.val n.val, (isExact_iff hop).mpr ⟨hdivisor, rfl⟩⟩

theorem calculate_exact {i : Int} (h : IsExact op m.val n.val i) :
    calculate op m n =
      match Number.ofInt? i with
      | some r => .ok r
      | none => .error (.overflow m op n) := by
  obtain ⟨hdivisor, rfl⟩ := (isExact_iff hop).mp h
  have hzero : ¬ (op = .divide ∧ n.val = 0) := fun hzero => hdivisor hzero.1 hzero.2
  cases hr : Number.ofInt? (exact op m.val n.val) with
  | some r => simp [calculate, hzero, hr]
  | none => simp [calculate, hzero, hr]

theorem calculate_eq_ok_iff {r : Number} :
    calculate op m n = .ok r ↔ IsExact op m.val n.val r.val := by
  constructor
  · intro h
    rcases by_zero_or_exact hop m n with ⟨hdivide, hn⟩ | ⟨i, hi⟩
    · rw [calculate_by_zero hdivide hn] at h
      cases h
    · rw [calculate_exact hop hi] at h
      split at h
      · next r' hr =>
        cases h
        rwa [Number.ofInt_eq_some_iff.mp hr]
      · cases h
  · intro h
    rw [calculate_exact hop h, Number.ofInt_eq_some_iff.mpr rfl]

/-- What becomes of a calculation without a result. -/
theorem calculate_eq_error_iff {fault : Fault} :
    calculate op m n = .error fault ↔
      (op = .divide ∧ n.val = 0 ∧ fault = .divisionByZero) ∨
        ∃ i, IsExact op m.val n.val i ∧ ¬ Number.InRange i ∧ fault = .overflow m op n := by
  constructor
  · intro h
    rcases by_zero_or_exact hop m n with ⟨hdivide, hn⟩ | ⟨i, hi⟩
    · rw [calculate_by_zero hdivide hn] at h
      cases h
      exact .inl ⟨hdivide, hn, rfl⟩
    · rw [calculate_exact hop hi] at h
      split at h
      · cases h
      · next hr =>
        cases h
        exact .inr ⟨i, hi, Number.ofInt_eq_none_iff_inRange.mp hr, rfl⟩
  · rintro (⟨hdivide, hn, rfl⟩ | ⟨i, hi, hout, rfl⟩)
    · exact calculate_by_zero hdivide hn
    · rw [calculate_exact hop hi, Number.ofInt_eq_none_iff_inRange.mpr hout]

theorem calculate_overflow_iff :
    calculate op m n = .error (.overflow m op n) ↔
      ∃ i, IsExact op m.val n.val i ∧ ¬ Number.InRange i := by
  rw [calculate_eq_error_iff hop]
  simp

end Numbers

/-- A division of numbers overflows in one case only. -/
theorem divide_overflow_iff {m n : Number} :
    calculate .divide m n = .error (.overflow m .divide n) ↔
      m.val = -9223372036854775808 ∧ n.val = -1 := by
  rw [calculate_overflow_iff (by decide)]
  constructor
  · rintro ⟨i, hi, hout⟩
    exact (quotient_out_of_range_iff m.inRange hi).mp hout
  · rintro ⟨hm, hn⟩
    have hexact : IsQuotient m.val n.val (m.val.tdiv n.val) := isQuotient_tdiv _ (by omega)
    exact ⟨_, hexact, (quotient_out_of_range_iff m.inRange hexact).mpr ⟨hm, hn⟩⟩

/-! ## Operators on values -/

section Values

variable {op : Operator} (hop : op ≠ .regex) {a b : Value} {m n : Number}

include hop

/-- Both operands are taken as numbers, the left one first. -/
theorem apply_eq (a b : Value) :
    a.apply op b = a.toNumber >>= fun m => b.toNumber >>= fun n =>
      calculate op m n >>= fun r => .ok (number r) := by
  cases op with
  | plus | minus | times | divide => rfl
  | regex => exact absurd rfl hop

theorem apply_of_standsFor (ha : a.StandsFor m) (hb : b.StandsFor n) :
    a.apply op b = calculate op m n >>= fun r => .ok (number r) := by
  rw [apply_eq hop, toNumber_eq_ok_iff.mpr ha, ok_bind, toNumber_eq_ok_iff.mpr hb, ok_bind]

theorem apply_of_left {why : Misfit} (ha : a.NotNumeric why) :
    a.apply op b = .error (.misfit why) := by
  rw [apply_eq hop, toNumber_eq_error_iff.mpr ⟨why, rfl, ha⟩, error_bind]

theorem apply_of_right {why : Misfit} (ha : a.StandsFor m) (hb : b.NotNumeric why) :
    a.apply op b = .error (.misfit why) := by
  rw [apply_eq hop, toNumber_eq_ok_iff.mpr ha, ok_bind, toNumber_eq_error_iff.mpr ⟨why, rfl, hb⟩,
    error_bind]

theorem apply_eq_ok_iff {v : Value} :
    a.apply op b = .ok v ↔ ∃ m n r, a.StandsFor m ∧ b.StandsFor n ∧
      IsExact op m.val n.val r.val ∧ v = number r := by
  rw [apply_eq hop]
  simp only [bind_ok_iff, toNumber_eq_ok_iff, calculate_eq_ok_iff hop, Except.ok.injEq]
  constructor
  · rintro ⟨m, ha, n, hb, r, hr, rfl⟩
    exact ⟨m, n, r, ha, hb, hr, rfl⟩
  · rintro ⟨m, n, r, ha, hb, hr, rfl⟩
    exact ⟨m, ha, n, hb, r, hr, rfl⟩

theorem apply_eq_error_iff (ha : a.StandsFor m) (hb : b.StandsFor n) {fault : Fault} :
    a.apply op b = .error fault ↔ calculate op m n = .error fault := by
  rw [apply_of_standsFor hop ha hb]
  cases calculate op m n with
  | ok r => simp
  | error fault' => simp

end Values

/-- Arithmetic is exact. An operator comes to a number exactly if both values stand for numbers, the
divisor is not zero, and the exact result is in range, and then to that result. If both stand for
numbers, all else is a division by zero or an overflow, and a division overflows for the least
number and minus one only. If not, it fails with what is told about the leftmost value that stands
for none. -/
theorem arithmetic_is_exact (op : Operator) (hop : op ≠ .regex) (a b : Value) :
    (∀ v, a.apply op b = .ok v ↔ ∃ m n r, a.StandsFor m ∧ b.StandsFor n ∧
      (op = .divide → n.val ≠ 0) ∧ IsExact op m.val n.val r.val ∧ v = number r) ∧
    (∀ m n, a.StandsFor m → b.StandsFor n →
      (a.apply op b = .error .divisionByZero ↔ op = .divide ∧ n.val = 0) ∧
      (a.apply op b = .error (.overflow m op n) ↔
        ∃ i, IsExact op m.val n.val i ∧ ¬ Number.InRange i) ∧
      (op = .divide → (a.apply op b = .error (.overflow m op n) ↔
        m.val = -9223372036854775808 ∧ n.val = -1)) ∧
      ∀ fault, a.apply op b = .error fault → fault = .divisionByZero ∨ fault = .overflow m op n) ∧
    ((∀ m, ¬ a.StandsFor m) → ∃ why, a.NotNumeric why ∧ a.apply op b = .error (.misfit why)) ∧
    ∀ m, a.StandsFor m → (∀ n, ¬ b.StandsFor n) →
      ∃ why, b.NotNumeric why ∧ a.apply op b = .error (.misfit why) := by
  refine ⟨fun v => ?_, fun m n ha hb => ⟨?_, ?_, ?_, ?_⟩, fun ha => ?_, fun m ha hb => ?_⟩
  · rw [apply_eq_ok_iff hop]
    constructor
    · rintro ⟨m, n, r, ha, hb, hr, rfl⟩
      exact ⟨m, n, r, ha, hb, ((isExact_iff hop).mp hr).1, hr, rfl⟩
    · rintro ⟨m, n, r, ha, hb, -, hr, rfl⟩
      exact ⟨m, n, r, ha, hb, hr, rfl⟩
  · rw [apply_eq_error_iff hop ha hb, calculate_eq_error_iff hop]
    simp
  · rw [apply_eq_error_iff hop ha hb, calculate_overflow_iff hop]
  · rintro rfl
    rw [apply_eq_error_iff hop ha hb, divide_overflow_iff]
  · intro fault hfault
    rw [apply_eq_error_iff hop ha hb, calculate_eq_error_iff hop] at hfault
    obtain ⟨-, -, hzero⟩ | ⟨-, -, -, hoverflow⟩ := hfault
    · exact .inl hzero
    · exact .inr hoverflow
  · obtain ⟨m, hm⟩ | ⟨why, hwhy⟩ := standsFor_or_notNumeric a
    · exact absurd hm (ha m)
    · exact ⟨why, hwhy, apply_of_left hop hwhy⟩
  · obtain ⟨n, hn⟩ | ⟨why, hwhy⟩ := standsFor_or_notNumeric b
    · exact absurd hn (hb n)
    · exact ⟨why, hwhy, apply_of_right hop ha hwhy⟩

theorem inRange_least : Number.InRange (-9223372036854775808) := ⟨by decide, by decide⟩

def least : Number := ⟨-9223372036854775808, inRange_least⟩

/-- The least number by minus one, which one of the values spells out, is too large by one. -/
theorem least_by_minus_one_overflows :
    Operator.divide ≠ .regex ∧ (number least).StandsFor least ∧
    (string "-01").StandsFor ⟨-1, by decide⟩ ∧
    (number least).apply .divide (string "-01") =
      .error (.overflow least .divide ⟨-1, by decide⟩) := by
  have hop : Operator.divide ≠ .regex := by decide
  have hb : (string "-01").StandsFor ⟨-1, by decide⟩ := toNumber_eq_ok_iff.mp (by decide +kernel)
  obtain ⟨-, hnumbers, -⟩ := arithmetic_is_exact .divide hop (number least) (string "-01")
  obtain ⟨-, -, hoverflow, -⟩ := hnumbers least ⟨-1, by decide⟩ .number hb
  exact ⟨hop, .number, hb, (hoverflow rfl).mpr ⟨rfl, rfl⟩⟩

end Value

end Policy
