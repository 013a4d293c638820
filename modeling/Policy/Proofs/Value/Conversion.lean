import Policy.Proofs.Value.Arithmetic
import Policy.Proofs.Value.Order

namespace Policy.Value

/-! ## The number of a value

Equality, order, arithmetic and conversion all take values as numbers in the same way. -/

variable {v w : Value} {n : Number} {text : String}

theorem coerce_number_eq (v : Value) :
    v.coerce .number = v.toNumber >>= fun n => .ok (number n) := by
  cases v with
  | number n => rfl
  | string text => rfl
  | truth b => rfl

theorem coerce_string_eq (v : Value) : v.coerce .string = .ok (string v.render) := by
  cases v with
  | number n => rfl
  | string text => rfl
  | truth b => rfl

theorem coerce_number_eq_ok_iff : v.coerce .number = .ok w ↔ ∃ n, v.StandsFor n ∧ w = number n := by
  rw [coerce_number_eq, bind_ok_iff]
  simp only [toNumber_eq_ok_iff, Except.ok.injEq, eq_comm (b := w)]

theorem coerce_number_iff : v.coerce .number = .ok (number n) ↔ v.StandsFor n := by
  rw [coerce_number_eq_ok_iff]
  constructor
  · rintro ⟨m, hm, heq⟩
    cases heq
    exact hm
  · exact fun h => ⟨n, h, rfl⟩

/-- A number is found again in its own text. -/
theorem standsFor_text (n : Number) : (string n.text).StandsFor n :=
  toNumber_eq_ok_iff.mp (numeric_eq_ok_iff.mpr n.read_text)

theorem coerce_string_coerce_number (n : Number) :
    (number n).coerce .string >>= (fun v => v.coerce .number) = .ok (number n) := by
  rw [coerce_string_eq, ok_bind]
  exact coerce_number_iff.mpr (standsFor_text n)

/-- What a conversion gives is of its kind already, and is left alone by the same conversion. -/
theorem coerce_of_coerce {kind : Kind} (h : v.coerce kind = .ok w) : w.coerce kind = .ok w := by
  cases kind with
  | string =>
    rw [coerce_string_eq] at h
    cases h
    rfl
  | number =>
    obtain ⟨n, -, rfl⟩ := coerce_number_eq_ok_iff.mp h
    rfl

theorem coerce_coerce (v : Value) (kind : Kind) :
    v.coerce kind >>= (fun w => w.coerce kind) = v.coerce kind := by
  cases h : v.coerce kind with
  | error fault => rfl
  | ok w => exact coerce_of_coerce h

/-- A number equals the values that stand for it, and no others. -/
theorem number_equals_iff : (number n).equals v = true ↔ v.StandsFor n := by
  rw [← toNumber_eq_ok_iff]
  cases v with
  | number m => simp [equals, toNumber, eq_comm]
  | string text => simp [equals, toNumber, numeric_eq_ok_iff]
  | truth b => simp [equals, toNumber]

theorem equals_number_iff : v.equals (number n) = true ↔ v.StandsFor n := by
  rw [equals_comm, number_equals_iff]

theorem string_standsFor_iff :
    (string text).StandsFor n ↔ Decimal.Numeral text.toList n.val := by
  constructor
  · intro h
    cases h with
    | string h => exact h
  · exact .string

/-- Values may be turned into numbers first, the left one before the right one. -/
theorem apply_of_coerced {op : Operator} (hop : op ≠ .regex) (v w : Value) :
    v.apply op w =
      v.coerce .number >>= fun x => w.coerce .number >>= fun y => x.apply op y := by
  rw [apply_eq hop, coerce_number_eq, coerce_number_eq]
  cases v.toNumber with
  | error fault => rfl
  | ok m =>
    cases w.toNumber with
    | error fault => rfl
    | ok n => exact (apply_eq hop (number m) (number n)).symm

theorem greater_of_coerced_right (n : Number) (text : String) :
    (number n).greater (string text) =
      (string text).coerce .number >>= fun y => (number n).greater y := by
  rw [coerce_number_eq, greater, toNumber]
  cases numeric text with
  | error fault => rfl
  | ok m => rfl

theorem greater_of_coerced_left (text : String) (n : Number) :
    (string text).greater (number n) =
      (string text).coerce .number >>= fun x => x.greater (number n) := by
  rw [coerce_number_eq, greater, toNumber]
  cases numeric text with
  | error fault => rfl
  | ok m => rfl

/-- All operations read strings as the same numbers, which are those of the numerals. A number is
read back from its text, a conversion changes nothing when it is done again, and where a number is
compared or calculated with a string, it makes no difference whether the string is turned into a
number first. This includes the faults, of which that of the left operand comes first. -/
theorem strings_have_one_reading :
    (∀ n : Number, (number n).coerce .string >>= (fun v => v.coerce .number) = .ok (number n)) ∧
    (∀ (v : Value) (kind : Kind),
      v.coerce kind >>= (fun w => w.coerce kind) = v.coerce kind) ∧
    (∀ (text : String) (n : Number),
      ((string text).coerce .number = .ok (number n) ↔ Decimal.Numeral text.toList n.val) ∧
      ((number n).equals (string text) = true ↔ (string text).coerce .number = .ok (number n)) ∧
      ((string text).equals (number n) = true ↔ (string text).coerce .number = .ok (number n))) ∧
    (∀ op : Operator, op ≠ .regex → ∀ v w : Value,
      v.apply op w =
        v.coerce .number >>= fun x => w.coerce .number >>= fun y => x.apply op y) ∧
    ∀ (text : String) (n : Number),
      ((number n).greater (string text) =
        (string text).coerce .number >>= fun y => (number n).greater y) ∧
      (string text).greater (number n) =
        (string text).coerce .number >>= fun x => x.greater (number n) := by
  refine ⟨coerce_string_coerce_number, coerce_coerce, fun text n => ⟨?_, ?_, ?_⟩, ?_, ?_⟩
  · rw [coerce_number_iff, string_standsFor_iff]
  · rw [number_equals_iff, coerce_number_iff]
  · rw [equals_number_iff, coerce_number_iff]
  · exact fun op hop => apply_of_coerced hop
  · exact fun text n => ⟨greater_of_coerced_right n text, greater_of_coerced_left text n⟩

def seven : Number := ⟨7, by decide⟩

/-- A string with a sign and leading zeros takes part everywhere as the number seven. A sign alone
stands for no number, and is told about wherever it comes first. -/
theorem padded_seven_has_one_reading :
    Operator.times ≠ .regex ∧
    (string "+007").coerce .number = .ok (number seven) ∧
    (number seven).equals (string "+007") = true ∧
    (string "+007").greater (number seven) = .ok false ∧
    (string "+007").apply .times (string "-") = (string "-").coerce .number ∧
    (string "-").coerce .number = .error (.misfit (.notNumeric "-")) := by
  have hop : Operator.times ≠ .regex := by decide
  obtain ⟨-, -, hreading, hoperators, horder⟩ := strings_have_one_reading
  have hseven : (string "+007").coerce .number = .ok (number seven) := by decide +kernel
  have hsign : (string "-").coerce .number = .error (.misfit (.notNumeric "-")) := by
    decide +kernel
  refine ⟨hop, hseven, (hreading "+007" seven).2.1.mpr hseven, ?_, ?_, hsign⟩
  · rw [(horder "+007" seven).2, hseven]
    decide
  · rw [hoperators .times hop, hseven, hsign]
    rfl

end Policy.Value
