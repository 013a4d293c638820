import Policy.Proofs.Evaluation.Steady
import Policy.Proofs.Renaming
import Policy.Proofs.Source.Compared
import Policy.Proofs.Value.Order

namespace Policy

/-! ## Comparisons that succeed -/

namespace Evaluation

variable {ε σ : Type} {e : Evaluation σ}

/-- Some run finds the value, and every run that finds one finds this one. -/
def ComesTo (e : Evaluation σ) (t : Term Slot) (v : Value) : Prop :=
  (∃ s, ((e.term t).run s).1.result = .ok v) ∧
    ∀ s w, ((e.term t).run s).1.result = .ok w → w = v

theorem ComesTo.unique {t : Term Slot} {v w : Value} (hv : e.ComesTo t v) (hw : e.ComesTo t w) :
    w = v := by
  obtain ⟨s, hs⟩ := hw.1
  exact hv.2 s w hs

theorem comesTo_of_run (hservice : e.service.Stateless) {t : Term Slot} {s : Session σ} {v : Value}
    (h : ((e.term t).run s).1.result = .ok v) : e.ComesTo t v :=
  ⟨⟨s, h⟩, fun s' w hw => steady_term hservice t s' s w v hw h⟩

section Comparisons

variable (hservice : e.service.Stateless) {a b c d : Term Slot} {s t : Session σ} {x y : Bool}

include hservice

/-- What two terms are combined to depends on what they come to. -/
theorem values_of_combine {f : Value → Value → Except Fault Bool} {label : String}
    (h : ((do
      let t ← e.term a
      let u ← e.term b
      pure (Traced.combine f label t u) : Run σ (Traced Bool)).run s).1.result = .ok x) :
    ∃ v w, e.ComesTo a v ∧ e.ComesTo b w ∧ f v w = .ok x := by
  simp only [run_bind, run_pure, Traced.result_combine] at h
  obtain ⟨v, hv, h⟩ := bind_ok_iff.mp h
  obtain ⟨w, hw, h⟩ := bind_ok_iff.mp h
  exact ⟨v, w, comesTo_of_run hservice hv, comesTo_of_run hservice hw, h⟩

theorem values_of_equal_or_greater
    (h : ((e.condition (.or (.equal a b) (.greater c d))).run s).1.result = .ok x) :
    ∃ v w v' w' y, (e.ComesTo a v ∧ e.ComesTo b w) ∧ (e.ComesTo c v' ∧ e.ComesTo d w') ∧
      v'.greater w' = .ok y ∧ (v.equals w || y) = x := by
  rw [condition] at h
  simp only [run_bind, run_pure, Traced.result_combine] at h
  obtain ⟨p, hp, h⟩ := bind_ok_iff.mp h
  obtain ⟨y, hy, h⟩ := bind_ok_iff.mp h
  obtain ⟨v, w, hv, hw, hequals⟩ := values_of_combine hservice hp
  obtain ⟨v', w', hv', hw', hgreater⟩ := values_of_combine hservice hy
  cases hequals
  exact ⟨v, w, v', w', y, ⟨hv, hw⟩, ⟨hv', hw'⟩, hgreater, Except.ok.inj h⟩

/-- One value is greater than the other one, or else it is equal or less. -/
theorem opposed_of_runs (hx : ((e.condition (.greater a b)).run s).1.result = .ok x)
    (hy : ((e.condition (.or (.equal c d) (.greater b a))).run t).1.result = .ok y)
    (hsame : c = a ∧ d = b ∨ c = b ∧ d = a) :
    ∃ v w, e.ComesTo a v ∧ e.ComesTo b w ∧ v.Opposed w x y := by
  obtain ⟨v, w, hv, hw, hgreater⟩ := values_of_combine hservice hx
  obtain ⟨p, q, w', v', z, ⟨hp, hq⟩, ⟨hw', hv'⟩, hless, rfl⟩ := values_of_equal_or_greater hservice hy
  cases hw'.unique hw
  cases hv'.unique hv
  have hopposed := Value.opposed_of_greater hgreater hless
  refine ⟨v, w, hv, hw, ?_⟩
  rcases hsame with ⟨rfl, rfl⟩ | ⟨rfl, rfl⟩
  · cases hp.unique hv
    cases hq.unique hw
    exact hopposed
  · cases hp.unique hw
    cases hq.unique hv
    rw [Value.equals_comm]
    exact hopposed

end Comparisons

/-- A rule with two members decides unless both or none of their conditions hold. -/
theorem holds_of_exclusive {c d : Condition Slot} {s : Session σ} {decision : Decision}
    (h : ((e.rule (.oneOf [.when c .permit, .when d .deny])).run s).1.result = .ok decision) :
    ∃ t u x y, ((e.condition c).run t).1.result = .ok x ∧
      ((e.condition d).run u).1.result = .ok y ∧ (decision = .undecided ↔ x = y) := by
  simp only [rule, rules, run_bind, run_pure, Traced.result_aggregate, Traced.results,
    Traced.result_map] at h
  obtain ⟨decisions, hall, h⟩ := bind_ok_iff.mp h
  cases h
  obtain ⟨first, hfirst, hall⟩ := bind_ok_iff.mp hall
  obtain ⟨x, hx, hfirst⟩ := bind_ok_iff.mp hfirst
  cases hfirst
  obtain ⟨others, hothers, hall⟩ := bind_ok_iff.mp hall
  cases hall
  obtain ⟨second, hsecond, hothers⟩ := bind_ok_iff.mp hothers
  obtain ⟨y, hy, hsecond⟩ := bind_ok_iff.mp hsecond
  cases hsecond
  cases hothers
  refine ⟨_, _, x, y, hx, hy, ?_⟩
  cases x with
  | false | true =>
    cases y with
    | false | true => decide

end Evaluation

/-! ## Signs of comparisons -/

namespace Source

/-- Signs of which one is expected to hold where the other one does not. -/
inductive Complementary : Mark → Mark → Prop where
  | above : Complementary .gt .lte
  | below : Complementary .lt .gte

end Source

namespace Evaluation

open Source

section Signs

variable {ε σ : Type} {e : Evaluation σ} {sign other : Mark} {a b : Term String}
  {find : String → Except ε Slot} {p q : Term Slot}

/-- What complementary signs stand for, once references are found. -/
theorem exists_opposed_comparisons (hservice : e.service.Stateless)
    (hsigns : Complementary sign other) (hp : a.mapRefs find = .ok p)
    (hq : b.mapRefs find = .ok q) :
    ∃ compare compare' c d, comparison? (.mark sign) = some compare ∧
      comparison? (.mark other) = some compare' ∧ (compare a b).mapRefs find = .ok c ∧
      (compare' a b).mapRefs find = .ok d ∧
      ∀ s t x y, ((e.condition c).run s).1.result = .ok x →
        ((e.condition d).run t).1.result = .ok y →
        ∃ v w, e.ComesTo p v ∧ e.ComesTo q w ∧ v.Opposed w x y := by
  cases hsigns with
  | above =>
    refine ⟨_, _, .greater p q, .or (.equal p q) (.greater q p), rfl, rfl, ?_, ?_, ?_⟩
    · simp only [Condition.mapRefs, hp, hq, ok_bind]
      rfl
    · simp only [Condition.mapRefs, hp, hq, ok_bind]
      rfl
    · intro s t x y hx hy
      exact opposed_of_runs hservice hx hy (.inl ⟨rfl, rfl⟩)
  | below =>
    refine ⟨_, _, .greater q p, .or (.equal p q) (.greater p q), rfl, rfl, ?_, ?_, ?_⟩
    · simp only [Condition.mapRefs, hp, hq, ok_bind]
      rfl
    · simp only [Condition.mapRefs, hp, hq, ok_bind]
      rfl
    · intro s t x y hx hy
      obtain ⟨w, v, hw, hv, hopposed⟩ := opposed_of_runs hservice hx hy (.inr ⟨rfl, rfl⟩)
      exact ⟨v, w, hv, hw, hopposed.symm⟩

/-- Any two terms can be compared by complementary signs. Where both comparisons succeed, exactly one
of them holds, unless the terms come to different strings for the same number: then none of them
does, and just then the rule that chooses by them stays undecided. -/
theorem comparisons_complement (hservice : e.service.Stateless)
    (hsigns : Complementary sign other) {lhs rhs : String} (ha : termOf lhs = .ok a)
    (hb : termOf rhs = .ok b) (hp : a.mapRefs find = .ok p) (hq : b.mapRefs find = .ok q) :
    ∃ c d c' d', ReadAs conditionOf (fun text => Compares text lhs sign rhs) c ∧
      ReadAs conditionOf (fun text => Compares text lhs other rhs) d ∧
      c.mapRefs find = .ok c' ∧ d.mapRefs find = .ok d' ∧
      (∀ s t x y, ((e.condition c').run s).1.result = .ok x →
        ((e.condition d').run t).1.result = .ok y →
        ∃ v w, e.ComesTo p v ∧ e.ComesTo q w ∧ v.Opposed w x y) ∧
      ∃ rule rule', (readWhole (readTerm nestingLimit 1) lhs = .ok a →
        readWhole (readTerm nestingLimit 1) rhs = .ok b →
          ReadAs ruleOf (fun text => Chooses text lhs sign other rhs) rule) ∧
        rule.mapRefs find = .ok rule' ∧
        ∀ s decision, ((e.rule rule').run s).1.result = .ok decision →
          ∃ v w, e.ComesTo p v ∧ e.ComesTo q w ∧ (decision = .undecided ↔ v.SpelledApart w) := by
  obtain ⟨compare, compare', c, d, hsign, hother, hc, hd, hopposed⟩ :=
    exists_opposed_comparisons hservice hsigns hp hq
  refine ⟨compare a b, compare' a b, c, d, readAs_compares ha hb hsign,
    readAs_compares ha hb hother, hc, hd, hopposed,
    .oneOf [.when (compare a b) .permit, .when (compare' a b) .deny],
    .oneOf [.when c .permit, .when d .deny], fun ha hb => readAs_chooses ha hb hsign hother,
    ?_, ?_⟩
  · simp only [Rule.mapRefs, Rule.mapMembers, hc, hd, ok_bind]
    rfl
  · intro s decision h
    obtain ⟨t, u, x, y, hx, hy, hundecided⟩ := holds_of_exclusive h
    obtain ⟨v, w, hv, hw, hvw⟩ := hopposed t u x y hx hy
    exact ⟨v, w, hv, hw, hundecided.trans hvw.eq_iff⟩

end Signs

/-- A level that a request brings along as a text. -/
def levels : RuleSet String := ⟨[⟨"level", .coerce (.request "level") .number⟩], []⟩

/-- The level is the same number as `012`. -/
def levelTwelve : Evaluation Unit where
  set := ⟨[⟨"level", .coerce (.request "level") .number⟩], []⟩
  request := [("level", "12")]
  service := .disabled
  depthLimit := 1

theorem levelTwelve_complement :
    levelTwelve.service.Stateless ∧ Complementary .gt .lte ∧
    termOf "level" = .ok (.attr "level") ∧ termOf "\"012\"" = .ok (.string "012") ∧
    (Term.attr "level").mapRefs (levels.find (.rule 1)) = .ok (.attr 0) ∧
    (Term.string "012").mapRefs (levels.find (.rule 1)) = .ok (.string "012") ∧
    ∃ v w, levelTwelve.ComesTo (.attr 0) v ∧ levelTwelve.ComesTo (.string "012") w ∧
      v.Opposed w false true := by
  have hservice : levelTwelve.service.Stateless := fun _ _ _ => rfl
  have ha : termOf "level" = .ok (.attr "level") := by decide +kernel
  have hb : termOf "\"012\"" = .ok (.string "012") := by decide +kernel
  have hp : (Term.attr "level").mapRefs (levels.find (.rule 1)) = .ok (.attr 0) := by
    decide +kernel
  have hq : (Term.string "012").mapRefs (levels.find (.rule 1)) = .ok (.string "012") := rfl
  refine ⟨hservice, .above, ha, hb, hp, hq, ?_⟩
  obtain ⟨c, d, c', d', hc, hd, hc', hd', hopposed, -⟩ :=
    comparisons_complement hservice .above ha hb hp hq
  have hover : conditionOf "level > \"012\"" = .ok (.greater (.attr "level") (.string "012")) := by
    decide +kernel
  have hunder : conditionOf "level <= \"012\"" = .ok (.or (.equal (.attr "level") (.string "012"))
      (.greater (.string "012") (.attr "level"))) := by
    decide +kernel
  cases (hc.2 _ (by decide +kernel)).symm.trans hover
  cases (hd.2 _ (by decide +kernel)).symm.trans hunder
  cases hc'
  cases hd'
  exact hopposed ⟨(), []⟩ ⟨(), []⟩ false true (by decide +kernel) (by decide +kernel)

section Padded

variable {α : Type}

def paddedOver : Condition α := .greater (.string "1") (.string "01")

def paddedUnder : Condition α :=
  .or (.equal (.string "1") (.string "01")) (.greater (.string "01") (.string "1"))

def paddedChoice : Rule α := .oneOf [.when paddedOver .permit, .when paddedUnder .deny]

end Padded

/-- For two spellings of a number neither comparison holds, and the rule that chooses by them stays
undecided. -/
theorem padded_number_undecided :
    levelTwelve.service.Stateless ∧
    conditionOf "\"1\" > \"01\"" = .ok paddedOver ∧
    conditionOf "\"1\" <= \"01\"" = .ok paddedUnder ∧
    ruleOf "exclusive \x7b permit when \"1\" > \"01\", deny when \"1\" <= \"01\" \x7d" =
      .ok paddedChoice ∧
    ((levelTwelve.condition paddedOver).run ⟨(), []⟩).1.result = .ok false ∧
    ((levelTwelve.condition paddedUnder).run ⟨(), []⟩).1.result = .ok false ∧
    ((levelTwelve.rule paddedChoice).run ⟨(), []⟩).1.result = .ok .undecided := by
  refine ⟨fun _ _ _ => rfl, ?_⟩
  decide +kernel

end Evaluation

end Policy
