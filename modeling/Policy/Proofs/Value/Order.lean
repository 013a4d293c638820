import Policy.Proofs.Value.Numeral

namespace Policy

/-! ## Values in order -/

namespace Value

/-- Different strings that stand for the same number. They are not equal, and neither of them is the
greater one. -/
def SpelledApart : Value → Value → Prop
  | string a, string b => a ≠ b ∧ Number.read? a = Number.read? b ∧ Number.read? a ≠ none
  | _, _ => False

instance (v w : Value) : Decidable (v.SpelledApart w) :=
  match v, w with
  | string _, string _ => inferInstanceAs (Decidable (_ ∧ _))
  | string _, number _ | string _, truth _ | number _, _ | truth _, _ =>
    inferInstanceAs (Decidable False)

theorem SpelledApart.symm {v w : Value} (h : v.SpelledApart w) : w.SpelledApart v := by
  cases v with
  | number n | truth b => exact h.elim
  | string a =>
    cases w with
    | number n | truth b => exact h.elim
    | string b =>
      obtain ⟨hne, hsame, hsome⟩ := h
      exact ⟨hne.symm, hsame.symm, hsame ▸ hsome⟩

theorem SpelledApart.equals_eq_false {v w : Value} (h : v.SpelledApart w) : v.equals w = false := by
  cases v with
  | number n | truth b => exact h.elim
  | string a =>
    cases w with
    | number n | truth b => exact h.elim
    | string b => exact decide_eq_false h.1

/-- Two statements about values of which just one holds, but for strings that are spelled apart,
where neither does. -/
structure Opposed (v w : Value) (x y : Bool) : Prop where
  apart : v.SpelledApart w → x = false ∧ y = false
  otherwise : ¬ v.SpelledApart w → y = !x

theorem Opposed.symm {v w : Value} {x y : Bool} (h : v.Opposed w x y) : w.Opposed v x y :=
  ⟨fun happart => h.apart happart.symm, fun hsame => h.otherwise fun happart => hsame happart.symm⟩

theorem Opposed.eq_iff {v w : Value} {x y : Bool} (h : v.Opposed w x y) :
    x = y ↔ v.SpelledApart w := by
  constructor
  · intro hxy
    by_contra hsame
    have hself : x = !x := hxy.trans (h.otherwise hsame)
    exact (Bool.eq_not_self x).mp hself
  · intro happart
    obtain ⟨hx, hy⟩ := h.apart happart
    exact hx.trans hy.symm

theorem equals_comm (v w : Value) : v.equals w = w.equals v := by
  cases v with
  | string a | number a | truth a =>
    cases w with
    | string b | number b | truth b => simp only [equals, eq_comm]

theorem equal_or_exceeds (m n : Number) : (decide (m = n) || exceeds n m) = !exceeds m n := by
  have hval : m = n ↔ m.val = n.val := Number.ext_iff
  rcases Int.lt_trichotomy m.val n.val with h | h | h
  · have hne : m ≠ n := fun heq => absurd (hval.mp heq) (by omega)
    have hasymm : ¬ n.val < m.val := by omega
    simp [exceeds, hne, h, hasymm]
  · simp [exceeds, hval, h]
  · have hne : m ≠ n := fun heq => absurd (hval.mp heq) (by omega)
    have hasymm : ¬ m.val < n.val := by omega
    simp [exceeds, hne, h, hasymm]

theorem equal_or_later (a b : String) : (decide (a = b) || decide (a < b)) = !decide (b < a) := by
  by_cases hlater : b < a
  · have hasymm : ¬ a < b := String.lt_asymm hlater
    have hne : a ≠ b := by
      rintro rfl
      exact String.lt_irrefl a hlater
    simp [hlater, hasymm, hne]
  · by_cases hearlier : a < b
    · simp [hlater, hearlier]
    · have heq : a = b := String.le_antisymm (String.not_lt.mp hlater) (String.not_lt.mp hearlier)
      simp [heq]

section Numbers

variable {v w : Value} {m n : Number}

/-- Values that both have a number are in the order of their numbers. -/
theorem greater_numeric (hv : v.toNumber = .ok m) (hw : w.toNumber = .ok n) :
    v.greater w = .ok (exceeds m n) := by
  cases v with
  | truth b => cases hv
  | number m' =>
    cases hv
    cases w with
    | truth b => cases hw
    | number n' =>
      cases hw
      rfl
    | string b =>
      change numeric b = .ok n at hw
      rw [greater, hw]
      rfl
  | string a =>
    change numeric a = .ok m at hv
    cases w with
    | truth b => cases hw
    | number n' =>
      cases hw
      rw [greater, hv]
      rfl
    | string b =>
      change numeric b = .ok n at hw
      simp only [greater, numeric_eq_ok_iff.mp hv, numeric_eq_ok_iff.mp hw]

theorem equals_numeric (hv : v.toNumber = .ok m) (hw : w.toNumber = .ok n)
    (happart : ¬ v.SpelledApart w) : v.equals w = decide (m = n) := by
  cases v with
  | truth b => cases hv
  | number m' =>
    cases hv
    cases w with
    | truth b => cases hw
    | number n' =>
      cases hw
      rfl
    | string b =>
      have hread : Number.read? b = some n := numeric_eq_ok_iff.mp hw
      simp only [equals, hread, Option.some_inj, eq_comm]
  | string a =>
    have ha : Number.read? a = some m := numeric_eq_ok_iff.mp hv
    cases w with
    | truth b => cases hw
    | number n' =>
      cases hw
      simp only [equals, ha, Option.some_inj]
    | string b =>
      have hb : Number.read? b = some n := numeric_eq_ok_iff.mp hw
      have hiff : a = b ↔ m = n := by
        constructor
        · rintro rfl
          exact Option.some_inj.mp (ha.symm.trans hb)
        · rintro rfl
          by_contra hne
          exact happart ⟨hne, ha.trans hb.symm, by simp [ha]⟩
      simp only [equals, hiff]

theorem SpelledApart.exists_number (h : v.SpelledApart w) :
    ∃ n, v.toNumber = .ok n ∧ w.toNumber = .ok n := by
  cases v with
  | number n | truth b => exact h.elim
  | string a =>
    cases w with
    | number n | truth b => exact h.elim
    | string b =>
      obtain ⟨-, hsame, hsome⟩ := h
      obtain ⟨n, hn⟩ := Option.ne_none_iff_exists'.mp hsome
      exact ⟨n, numeric_eq_ok_iff.mpr hn, numeric_eq_ok_iff.mpr (hsame ▸ hn)⟩

/-- Values that can be ordered both have a number, or else they are strings. -/
theorem exists_of_greater_ok {x : Bool} (h : v.greater w = .ok x) :
    (∃ m n, v.toNumber = .ok m ∧ w.toNumber = .ok n) ∨
      ∃ a b, v = string a ∧ w = string b ∧ (Number.read? a = none ∨ Number.read? b = none) := by
  cases v with
  | truth b => cases h
  | number m =>
    cases w with
    | truth b => cases h
    | number n => exact .inl ⟨m, n, rfl, rfl⟩
    | string b =>
      obtain ⟨n, hn, -⟩ := bind_ok_iff.mp h
      exact .inl ⟨m, n, rfl, hn⟩
  | string a =>
    cases w with
    | truth b => cases h
    | number n =>
      obtain ⟨m, hm, -⟩ := bind_ok_iff.mp h
      exact .inl ⟨m, n, hm, rfl⟩
    | string b =>
      cases ha : Number.read? a with
      | none => exact .inr ⟨a, b, rfl, rfl, .inl ha⟩
      | some m =>
        cases hb : Number.read? b with
        | none => exact .inr ⟨a, b, rfl, rfl, .inr hb⟩
        | some n => exact .inl ⟨m, n, numeric_eq_ok_iff.mpr ha, numeric_eq_ok_iff.mpr hb⟩

theorem greater_strings {a b : String} (h : Number.read? a = none ∨ Number.read? b = none) :
    (string a).greater (string b) = .ok (decide (b < a)) := by
  rcases h with h | h
  · simp only [greater, h]
  · cases ha : Number.read? a with
    | none => simp only [greater, ha]
    | some m => simp only [greater, ha, h]

/-- Of two values that can be ordered either one is greater, or they are equal, or they are strings
for the same number. -/
theorem opposed_of_greater {x y : Bool} (hx : v.greater w = .ok x) (hy : w.greater v = .ok y) :
    v.Opposed w x (v.equals w || y) := by
  rcases exists_of_greater_ok hx with ⟨m, n, hm, hn⟩ | ⟨a, b, rfl, rfl, hplain⟩
  · cases (greater_numeric hm hn).symm.trans hx
    cases (greater_numeric hn hm).symm.trans hy
    constructor
    · intro happart
      obtain ⟨k, hk, hk'⟩ := happart.exists_number
      have hmk : m = k := Except.ok.inj (hm.symm.trans hk)
      have hnk : n = k := Except.ok.inj (hn.symm.trans hk')
      have hself : exceeds k k = false := decide_eq_false (Int.lt_irrefl _)
      rw [happart.equals_eq_false, hmk, hnk, hself]
      exact ⟨rfl, rfl⟩
    · intro hsame
      rw [equals_numeric hm hn hsame]
      exact equal_or_exceeds m n
  · cases (greater_strings hplain).symm.trans hx
    cases (greater_strings hplain.symm).symm.trans hy
    constructor
    · rintro ⟨-, hsame, hsome⟩
      rcases hplain with h | h
      · exact absurd h hsome
      · exact absurd (hsame.trans h) hsome
    · intro _
      exact equal_or_later a b

example : (string "1").SpelledApart (string "01") ∧ ¬ (string "1").SpelledApart (number .zero) := by
  decide +kernel

end Numbers

end Value

end Policy
