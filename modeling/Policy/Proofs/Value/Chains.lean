import Policy.Proofs.Value.Order
import Mathlib.Data.Set.Pairwise.Basic
import Mathlib.Logic.Relation

namespace Policy.Value

/-! ## Two orders in one

Values that stand for numbers are in the order of their numbers, other strings in the order of their
texts. Where the two orders meet, a value can be greater than one that is greater than the next, and
so on, round to itself. -/

/-- The first value is found to be greater than the second one. -/
def IsGreater (v w : Value) : Prop := v.greater w = .ok true

/-- Any two of the values can be ordered. -/
def Comparable (S : Set Value) : Prop := S.Pairwise fun v w => ∃ x, v.greater w = .ok x

/-- No number is what the text stands for. -/
def Wordy (text : String) : Prop := ∀ n, ¬ (string text).StandsFor n

/-- Greater as a number. -/
def ByNumber (v w : Value) : Prop := ∃ m n, v.StandsFor m ∧ w.StandsFor n ∧ n.val < m.val

/-- Greater as a text, which is how strings are compared unless both stand for numbers. -/
def ByText (v w : Value) : Prop :=
  ∃ a b, v = string a ∧ w = string b ∧ (Wordy a ∨ Wordy b) ∧ b < a

/-- In the order of texts, a string without a number comes between two strings with numbers. The
first number is that of the string above. -/
def Parted (S : Set Value) (m n : Number) : Prop :=
  ∃ a b c, (string a ∈ S ∧ string b ∈ S ∧ string c ∈ S) ∧
    ((string a).StandsFor m ∧ Wordy b ∧ (string c).StandsFor n) ∧ c < b ∧ b < a

/-- One value of the set is greater than another one. -/
def GreaterIn (S : Set Value) (v w : Value) : Prop := v ∈ S ∧ w ∈ S ∧ v.IsGreater w

variable {S : Set Value} {u v w : Value} {a b c : String} {m n : Number}

theorem wordy_iff : Wordy a ↔ Number.read? a = none := by
  rw [Option.eq_none_iff_forall_ne_some]
  refine forall_congr' fun n => not_congr ?_
  rw [← toNumber_eq_ok_iff]
  exact numeric_eq_ok_iff

theorem isGreater_iff : v.IsGreater w ↔ v.ByNumber w ∨ v.ByText w := by
  constructor
  · intro h
    rcases exists_of_greater_ok h with ⟨m, n, hm, hn⟩ | ⟨a, b, rfl, rfl, hplain⟩
    · have hval := Except.ok.inj ((greater_numeric hm hn).symm.trans h)
      exact .inl ⟨m, n, toNumber_eq_ok_iff.mp hm, toNumber_eq_ok_iff.mp hn, of_decide_eq_true hval⟩
    · have hlt := Except.ok.inj ((greater_strings hplain).symm.trans h)
      rw [← wordy_iff, ← wordy_iff] at hplain
      exact .inr ⟨a, b, rfl, rfl, hplain, of_decide_eq_true hlt⟩
  · rintro (⟨m, n, hm, hn, hlt⟩ | ⟨a, b, rfl, rfl, hplain, hlt⟩)
    · rw [IsGreater, greater_numeric (toNumber_eq_ok_iff.mpr hm) (toNumber_eq_ok_iff.mpr hn)]
      exact congrArg _ (decide_eq_true hlt)
    · rw [wordy_iff, wordy_iff] at hplain
      rw [IsGreater, greater_strings hplain]
      exact congrArg _ (decide_eq_true hlt)

theorem ByNumber.lt (h : v.ByNumber w) (hv : v.StandsFor m) (hw : w.StandsFor n) :
    n.val < m.val := by
  obtain ⟨m', n', hm, hn, hlt⟩ := h
  rwa [hv.unique hm, hw.unique hn]

theorem ByNumber.trans (huv : u.ByNumber v) (hvw : v.ByNumber w) : u.ByNumber w := by
  obtain ⟨m, n, hm, hn, hlt⟩ := huv
  obtain ⟨n', k, hn', hk, hlt'⟩ := hvw
  cases hn.unique hn'
  exact ⟨m, k, hm, hk, hlt'.trans hlt⟩

/-- Strings with numbers are compared as numbers only. -/
theorem ByNumber.of_isGreater (h : v.IsGreater w) (hv : v.StandsFor m) (hw : w.StandsFor n) :
    v.ByNumber w := by
  rcases isGreater_iff.mp h with h | ⟨a, b, rfl, rfl, hplain | hplain, -⟩
  · exact h
  · exact absurd hv (hplain m)
  · exact absurd hw (hplain n)

theorem not_isGreater_self (v : Value) : ¬ v.IsGreater v := by
  intro h
  rcases isGreater_iff.mp h with ⟨m, n, hm, hn, hlt⟩ | ⟨a, b, rfl, hab, -, hlt⟩
  · cases hm.unique hn
    exact Int.lt_irrefl _ hlt
  · cases hab
    exact String.lt_irrefl _ hlt

theorem IsGreater.asymm (h : v.IsGreater w) : ¬ w.IsGreater v := by
  intro hback
  rcases isGreater_iff.mp h with ⟨m, n, hm, hn, hlt⟩ | ⟨a, b, rfl, rfl, hplain, hlt⟩
  · have hback' := (ByNumber.of_isGreater hback hn hm).lt hn hm
    omega
  · rcases isGreater_iff.mp hback with ⟨m, n, hm, hn, -⟩ | ⟨b', a', hb, ha, -, hlt'⟩
    · rcases hplain with hplain | hplain
      · exact hplain n hn
      · exact hplain m hm
    · cases ha
      cases hb
      exact String.lt_asymm hlt hlt'

/-! ## Three values -/

section Three

/-- A string with a number can only be compared to a string without one if both are strings. -/
theorem Comparable.exists_string (h : Comparable S) (hv : v ∈ S) (hb : string b ∈ S)
    (hm : v.StandsFor m) (hword : Wordy b) : ∃ a, v = string a := by
  have hne : v ≠ string b := by
    rintro rfl
    exact hword m hm
  obtain ⟨x, hx⟩ := h hv hb hne
  rcases exists_of_greater_ok hx with ⟨-, n, -, hn⟩ | ⟨a, -, ha, -⟩
  · exact absurd (toNumber_eq_ok_iff.mp hn) (hword n)
  · exact ⟨a, ha⟩

theorem lt_or_lt_of_wordy (ha : (string a).StandsFor m) (hb : Wordy b) : b < a ∨ a < b := by
  by_cases hlt : b < a
  · exact .inl hlt
  · have hne : a ≠ b := by
      rintro rfl
      exact hb m ha
    exact .inr (Std.lt_of_le_of_ne (String.not_lt.mp hlt) hne)

variable (h : Comparable S) (hparted : ∀ m n, Parted S m n → n.val < m.val) (hu : u ∈ S)
  (hv : v ∈ S) (hw : w ∈ S)

include h hparted hu hv hw

/-- A number that is greater than one whose text is greater than a word. -/
theorem byText_of_byNumber_byText (huv : u.ByNumber v) (hvw : v.ByText w) : u.ByText w := by
  obtain ⟨m, n, hm, hn, hlt⟩ := huv
  obtain ⟨b, c, rfl, rfl, hword | hword, hcb⟩ := hvw
  · exact absurd hn (hword n)
  · obtain ⟨a, rfl⟩ := h.exists_string hu hw hm hword
    rcases lt_or_lt_of_wordy hm hword with hca | hac
    · exact ⟨a, c, rfl, rfl, .inr hword, hca⟩
    · have hback := hparted n m ⟨b, c, a, ⟨hv, hw, hu⟩, ⟨hn, hword, hm⟩, hac, hcb⟩
      omega

theorem byText_of_byText_byNumber (huv : u.ByText v) (hvw : v.ByNumber w) : u.ByText w := by
  obtain ⟨m, n, hm, hn, hlt⟩ := hvw
  obtain ⟨a, b, rfl, rfl, hword | hword, hba⟩ := huv
  · obtain ⟨c, rfl⟩ := h.exists_string hw hu hn hword
    rcases lt_or_lt_of_wordy hn hword with hac | hca
    · have hback := hparted n m ⟨c, a, b, ⟨hw, hu, hv⟩, ⟨hn, hword, hm⟩, hba, hac⟩
      omega
    · exact ⟨a, c, rfl, rfl, .inl hword, hca⟩
  · exact absurd hm (hword m)

omit h in
theorem isGreater_of_byText (huv : u.ByText v) (hvw : v.ByText w) : u.IsGreater w := by
  obtain ⟨a, b, rfl, rfl, hab, hba⟩ := huv
  obtain ⟨b', c, hb, rfl, hbc, hcb⟩ := hvw
  cases hb
  have hca : c < a := String.lt_trans hcb hba
  by_cases hwords : Wordy a ∨ Wordy c
  · exact isGreater_iff.mpr (.inr ⟨a, c, rfl, rfl, hwords, hca⟩)
  · obtain ⟨ha, hc⟩ := not_or.mp hwords
    have hword : Wordy b := hab.resolve_left ha
    simp only [Wordy, not_forall, not_not] at ha hc
    obtain ⟨m, hm⟩ := ha
    obtain ⟨n, hn⟩ := hc
    have hlt := hparted m n ⟨a, b, c, ⟨hu, hv, hw⟩, ⟨hm, hword, hn⟩, hcb, hba⟩
    exact isGreater_iff.mpr (.inl ⟨m, n, hm, hn, hlt⟩)

theorem isGreater_trans (huv : u.IsGreater v) (hvw : v.IsGreater w) : u.IsGreater w := by
  rcases isGreater_iff.mp huv with huv | huv
  · rcases isGreater_iff.mp hvw with hvw | hvw
    · exact isGreater_iff.mpr (.inl (huv.trans hvw))
    · exact isGreater_iff.mpr (.inr (byText_of_byNumber_byText h hparted hu hv hw huv hvw))
  · rcases isGreater_iff.mp hvw with hvw | hvw
    · exact isGreater_iff.mpr (.inr (byText_of_byText_byNumber h hparted hu hv hw huv hvw))
    · exact isGreater_of_byText hparted hu hv hw huv hvw

end Three

/-- What parts two strings is below the one and above the other one. -/
theorem Parted.exists_chain (h : Parted S m n) :
    ∃ u v w, (u.StandsFor m ∧ w.StandsFor n) ∧ GreaterIn S u v ∧ GreaterIn S v w := by
  obtain ⟨a, b, c, ⟨ha, hb, hc⟩, ⟨hm, hword, hn⟩, hcb, hba⟩ := h
  have hab := isGreater_iff.mpr (.inr ⟨a, b, rfl, rfl, .inr hword, hba⟩)
  have hbc := isGreater_iff.mpr (.inr ⟨b, c, rfl, rfl, .inl hword, hcb⟩)
  exact ⟨_, _, _, ⟨hm, hn⟩, ⟨ha, hb, hab⟩, hb, hc, hbc⟩

/-! ## Chains of any length -/

/-- Greater as a text, in a set with a word in between, or at one of the ends. -/
def Around (S : Set Value) (v w : Value) : Prop :=
  ∃ a b c, v = string a ∧ w = string c ∧ (string a ∈ S ∧ string b ∈ S ∧ string c ∈ S) ∧
    Wordy b ∧ c < a ∧ c ≤ b ∧ b ≤ a

theorem around_of_byText (hv : v ∈ S) (hw : w ∈ S) (h : v.ByText w) : Around S v w := by
  obtain ⟨a, c, rfl, rfl, hword | hword, hlt⟩ := h
  · exact ⟨a, a, c, rfl, rfl, ⟨hv, hv, hw⟩, hword, hlt, Std.le_of_lt hlt, Std.le_refl a⟩
  · exact ⟨a, c, c, rfl, rfl, ⟨hv, hw, hw⟩, hword, hlt, Std.le_refl c, Std.le_of_lt hlt⟩

theorem Around.trans (huv : Around S u v) (hvw : Around S v w) : Around S u w := by
  obtain ⟨a, b, c, rfl, rfl, ⟨ha, hb, hc⟩, hword, hca, hcb, hba⟩ := huv
  obtain ⟨c', b', d, hcc, rfl, ⟨-, -, hd⟩, -, hdc, -, -⟩ := hvw
  cases hcc
  exact ⟨a, b, d, rfl, rfl, ⟨ha, hb, hd⟩, hword, String.lt_trans hdc hca,
    String.le_trans (Std.le_of_lt hdc) hcb, hba⟩

theorem eq_or_around_trans (huv : u = v ∨ Around S u v) (hvw : v = w ∨ Around S v w) :
    u = w ∨ Around S u w := by
  rcases huv with rfl | huv
  · exact hvw
  · rcases hvw with rfl | hvw
    · exact .inr huv
    · exact .inr (huv.trans hvw)

theorem not_around_self (v : Value) : ¬ Around S v v := by
  rintro ⟨a, b, c, rfl, hac, -, -, hlt, -⟩
  cases hac
  exact String.lt_irrefl _ hlt

theorem Around.parted (h : Around S v w) (hm : v.StandsFor m) (hn : w.StandsFor n) :
    Parted S m n := by
  obtain ⟨a, b, c, rfl, rfl, hin, hword, -, hcb, hba⟩ := h
  have hne : b ≠ a := by
    rintro rfl
    exact hword m hm
  have hne' : c ≠ b := by
    rintro rfl
    exact hword n hn
  exact ⟨a, b, c, hin, ⟨hm, hword, hn⟩, Std.lt_of_le_of_ne hcb hne', Std.lt_of_le_of_ne hba hne⟩

/-- The ends of a chain of greater values: texts from the one to the other, or in between two
numbers that stay in order. -/
inductive Falls (S : Set Value) : Value → Value → Prop
  | text {x y : Value} (h : Around S x y) : Falls S x y
  | number {x p q y : Value} (hx : x = p ∨ Around S x p) (h : p.ByNumber q)
    (hy : q = y ∨ Around S q y) : Falls S x y

section Chains

variable (hparted : ∀ m n, Parted S m n → n.val ≤ m.val)

include hparted

/-- Texts in between do not lead up to a greater number. -/
theorem le_of_around (h : v = w ∨ Around S v w) (hm : v.StandsFor m) (hn : w.StandsFor n) :
    n.val ≤ m.val := by
  rcases h with rfl | h
  · cases hm.unique hn
    exact Int.le_refl _
  · exact hparted m n (h.parted hm hn)

theorem Falls.tail (h : Falls S u v) (hstep : GreaterIn S v w) : Falls S u w := by
  obtain ⟨hv, hw, hgreater⟩ := hstep
  rcases isGreater_iff.mp hgreater with hnumber | htext
  · cases h with
    | text h => exact .number (.inr h) hnumber (.inl rfl)
    | number hu hpq hq =>
      obtain ⟨i, j, hi, hj, hji⟩ := hpq
      obtain ⟨k, l, hk, hl, hlk⟩ := hnumber
      have hkj := le_of_around hparted hq hj hk
      exact .number hu ⟨i, l, hi, hl, by omega⟩ (.inl rfl)
  · have haround := around_of_byText hv hw htext
    cases h with
    | text h => exact .text (h.trans haround)
    | number hu hpq hq =>
      exact .number hu hpq (eq_or_around_trans hq (.inr haround))

/-- By induction on the chain. -/
theorem falls_of_transGen (h : Relation.TransGen (GreaterIn S) v w) : Falls S v w := by
  induction h with
  | single hstep =>
    obtain ⟨hv, hw, hgreater⟩ := hstep
    rcases isGreater_iff.mp hgreater with hnumber | htext
    · exact .number (.inl rfl) hnumber (.inl rfl)
    · exact .text (around_of_byText hv hw htext)
  | tail _ hstep ih => exact ih.tail hparted hstep

theorem not_falls_self (v : Value) : ¬ Falls S v v := by
  intro h
  cases h with
  | text h => exact not_around_self v h
  | number hp hpq hq =>
    have hback := eq_or_around_trans hq hp
    obtain ⟨m, n, hm, hn, hlt⟩ := hpq
    have hle := le_of_around hparted hback hn hm
    omega

end Chains

/-- Strings can always be ordered. -/
theorem comparable_of_strings (h : ∀ v ∈ S, ∃ text, v = string text) : Comparable S := by
  intro v hv w hw _
  obtain ⟨a, rfl⟩ := h v hv
  obtain ⟨b, rfl⟩ := h w hw
  rw [greater]
  split
  · exact ⟨_, rfl⟩
  · exact ⟨_, rfl⟩

/-- Among values of which any two can be ordered, none is greater than itself, and of two values at
most one is the greater one. The order is transitive exactly if words only part strings for numbers
that are in order as well, and it has no rounds exactly if words never part them the wrong way
round. -/
theorem greater_orders (S : Set Value) (h : Comparable S) :
    (∀ v ∈ S, ¬ v.IsGreater v) ∧
    (∀ v ∈ S, ∀ w ∈ S, v.IsGreater w → ¬ w.IsGreater v) ∧
    ((∀ u ∈ S, ∀ v ∈ S, ∀ w ∈ S, u.IsGreater v → v.IsGreater w → u.IsGreater w) ↔
      ∀ m n, Parted S m n → n.val < m.val) ∧
    ((∀ v, ¬ Relation.TransGen (GreaterIn S) v v) ↔ ∀ m n, Parted S m n → n.val ≤ m.val) := by
  refine ⟨fun v _ => not_isGreater_self v, fun v _ w _ hvw => hvw.asymm, ⟨?_, ?_⟩, ⟨?_, ?_⟩⟩
  · intro htrans m n hparted
    obtain ⟨u, v, w, ⟨hm, hn⟩, ⟨hu, hv, huv⟩, -, hw, hvw⟩ := hparted.exists_chain
    have huw := htrans u hu v hv w hw huv hvw
    exact (ByNumber.of_isGreater huw hm hn).lt hm hn
  · intro hparted u hu v hv w hw huv hvw
    exact isGreater_trans h hparted hu hv hw huv hvw
  · intro hround m n hparted
    obtain ⟨u, v, w, ⟨hm, hn⟩, huv, hvw⟩ := hparted.exists_chain
    by_contra hlt
    have hwu : GreaterIn S w u :=
      ⟨hvw.2.1, huv.1, isGreater_iff.mpr (.inl ⟨n, m, hn, hm, by omega⟩)⟩
    exact hround u (.tail (.tail (.single huv) hvw) hwu)
  · intro hparted v hround
    exact not_falls_self hparted v (falls_of_transGen hparted hround)

/-- Two numbers in order, and a word that parts them the wrong way round. -/
def tangle : Set Value := {string "10", string "9", string "5a"}

theorem tangle_leads_round :
    Comparable tangle ∧ (string "10").IsGreater (string "9") ∧
      (string "9").IsGreater (string "5a") ∧ (string "5a").IsGreater (string "10") ∧
      ¬ (string "10").IsGreater (string "5a") := by
  have hstrings : ∀ v ∈ tangle, ∃ text, v = string text := by
    rintro v (rfl | rfl | rfl)
    · exact ⟨_, rfl⟩
    · exact ⟨_, rfl⟩
    · exact ⟨_, rfl⟩
  have hnumbers : (string "10").IsGreater (string "9") := by
    unfold IsGreater
    decide +kernel
  have habove : (string "9").IsGreater (string "5a") := by
    unfold IsGreater
    decide +kernel
  have hbelow : (string "5a").IsGreater (string "10") := by
    unfold IsGreater
    decide +kernel
  exact ⟨comparable_of_strings hstrings, hnumbers, habove, hbelow, hbelow.asymm⟩

/-- Two spellings of one number, and a word that parts them. -/
def spellings : Set Value := {string "1", string "0a", string "01"}

theorem standsFor_spellings (hv : v ∈ spellings) (hm : v.StandsFor m) : m.val = 1 := by
  have hnumber := toNumber_eq_ok_iff.mpr hm
  rcases hv with rfl | rfl | rfl
  · have hone : (string "1").toNumber = .ok ⟨1, by decide⟩ := by decide +kernel
    cases hone.symm.trans hnumber
    rfl
  · have hword : (string "0a").toNumber = .error (.misfit (.notNumeric "0a")) := by decide +kernel
    cases hword.symm.trans hnumber
  · have hone : (string "01").toNumber = .ok ⟨1, by decide⟩ := by decide +kernel
    cases hone.symm.trans hnumber
    rfl

/-- The order of the spellings is not transitive, but it has no rounds. -/
theorem spellings_without_round :
    Comparable spellings ∧ (string "1").IsGreater (string "0a") ∧
      (string "0a").IsGreater (string "01") ∧ ¬ (string "1").IsGreater (string "01") ∧
      ∀ v, ¬ Relation.TransGen (GreaterIn spellings) v v := by
  have hstrings : ∀ v ∈ spellings, ∃ text, v = string text := by
    rintro v (rfl | rfl | rfl)
    · exact ⟨_, rfl⟩
    · exact ⟨_, rfl⟩
    · exact ⟨_, rfl⟩
  have hcomparable := comparable_of_strings hstrings
  obtain ⟨-, -, -, hrounds⟩ := greater_orders spellings hcomparable
  refine ⟨hcomparable, ?_, ?_, ?_, hrounds.mpr ?_⟩
  · unfold IsGreater
    decide +kernel
  · unfold IsGreater
    decide +kernel
  · unfold IsGreater
    decide +kernel
  · rintro m n ⟨a, b, c, ⟨ha, -, hc⟩, ⟨hm, -, hn⟩, -, -⟩
    rw [standsFor_spellings ha hm, standsFor_spellings hc hn]

end Policy.Value
