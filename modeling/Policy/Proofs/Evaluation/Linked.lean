import Policy.Proofs.Compiled
import Policy.Proofs.Evaluation.References
import Policy.Proofs.Scoped

namespace Policy

/-! ## References of terms -/

theorem Condition.refs_eq_terms {α : Type} (c : Condition α) :
    c.refs = c.terms.flatMap (·.refs) := by
  induction c with
  | not inner ih => exact ih
  | and lhs rhs ihl ihr | or lhs rhs ihl ihr =>
    rw [refs, terms, List.flatMap_append, ihl, ihr]
  | equal lhs rhs | greater lhs rhs => simp [refs, terms]

mutual

theorem Rule.refs_eq_terms {α : Type} (r : Rule α) : r.refs = r.terms.flatMap (·.refs) := by
  cases r with
  | always decision | never => rfl
  | when condition decision => exact condition.refs_eq_terms
  | branch condition onTrue onFalse =>
    rw [refs, terms, List.flatMap_append, List.flatMap_append, condition.refs_eq_terms,
      refs_eq_terms onTrue, refs_eq_terms onFalse]
  | majority decision members | all decision members | any decision members | oneOf members =>
    exact memberRefs_eq_terms members

theorem Rule.memberRefs_eq_terms {α : Type} (rs : List (Rule α)) :
    memberRefs rs = (memberTerms rs).flatMap (·.refs) := by
  cases rs with
  | nil => rfl
  | cons r rs =>
    rw [memberRefs, memberTerms, List.flatMap_append, refs_eq_terms r, memberRefs_eq_terms rs]

end

theorem Rule.memberTerms_eq_flatMap {α : Type} (rs : List (Rule α)) :
    memberTerms rs = rs.flatMap (·.terms) := by
  induction rs with
  | nil => rfl
  | cons r rs ih => rw [memberTerms, ih, List.flatMap_cons]

namespace RuleSet

variable {set : RuleSet Slot}

/-- References that start within the attributes of a well scoped rule set stay there. -/
theorem WellScoped.lt_of_leadsTo (h : set.WellScoped) {t : Term Slot}
    (ht : ∀ slot ∈ t.refs, slot < set.attributes.length) {slot : Slot} (hl : set.LeadsTo t slot) :
    slot < set.attributes.length := by
  obtain ⟨first, hfirst, hpath⟩ := hl
  induction hpath with
  | refl => exact ht first hfirst
  | tail _ hr ih =>
    obtain ⟨a, ha, hnext⟩ := hr
    apply h.inRange
    refine List.mem_append_left _ (List.mem_flatMap.mpr ⟨a, ?_, hnext⟩)
    exact List.mem_of_getElem? ha

theorem WellScoped.lt_of_terms (h : set.WellScoped) :
    ∀ t ∈ Rule.memberTerms set.rules, ∀ slot ∈ t.refs, slot < set.attributes.length := by
  intro t ht slot hslot
  apply h.inRange
  rw [Rule.memberTerms_eq_flatMap] at ht
  obtain ⟨r, hr, ht⟩ := List.mem_flatMap.mp ht
  refine List.mem_append_right _ (List.mem_flatMap.mpr ⟨r, hr, ?_⟩)
  rw [Rule.refs_eq_terms]
  exact List.mem_flatMap.mpr ⟨t, ht, hslot⟩

end RuleSet

namespace Evaluation

variable {σ : Type} {e : Evaluation σ}

theorem term_finds_slots (h : e.set.WellScoped) {t : Term Slot}
    (ht : ∀ slot ∈ t.refs, slot < e.set.attributes.length) :
    Ensures (fun _ => True) (fun fault => ∀ slot, fault ≠ .unknownSlot slot) (e.term t) := by
  refine (e.term_grounded t).imp (fun _ _ => trivial) ?_
  rintro fault htruth slot rfl
  obtain ⟨hleads, hout⟩ := htruth
  exact absurd (h.lt_of_leadsTo ht hleads) (Nat.not_lt.mpr hout)

/-- No rule of a well scoped rule set asks for a slot that holds no attribute. -/
theorem decisions_find_slots (h : e.set.WellScoped) (s : Session σ) (slot : Slot) :
    .failed (.unknownSlot slot) ∉ (e.decisions.run s).1 := by
  intro hmem
  have hconfines : e.Confines (fun _ => True) (fun _ => True)
      (fun fault => ∀ slot, fault ≠ .unknownSlot slot) := by
    apply e.confines_of_own
    rintro fault hown slot rfl
    cases hown
  have hterms : ∀ t ∈ Rule.memberTerms e.set.rules, Ensures (fun _ => True)
      (fun fault => ∀ slot, fault ≠ .unknownSlot slot) (e.term t) :=
    fun t ht => term_finds_slots h (h.lt_of_terms t ht)
  exact hconfines.rules e.set.rules hterms s _ hmem slot rfl

end Evaluation

namespace RuleSet

/-- Linking goes one to one between the rule sets by name that have a linked form and the well
scoped rule sets. It keeps attributes and rules at their places, and the slot of a name is the place
of the attribute with the name. Evaluation of what was linked or compiled finds every attribute. -/
theorem link_isomorphism (set : RuleSet String) (linked : RuleSet Slot) :
    (set.link = .ok linked ↔ linked.WellScoped ∧ linked.byName = set) ∧
    (set.link = .ok linked → linked.names = set.names ∧
      linked.rules.length = set.rules.length ∧
      (∀ (k : Nat) (r : Rule Slot), linked.rules[k]? = some r →
        set.rules[k]? = some (Id.run (r.mapRefs fun slot => pure (linked.nameAt slot)))) ∧
      (∀ name slot, linked.slot? name = some slot ↔ linked.names[slot]? = some name)) ∧
    ∀ file text, set.link = .ok linked ∨ compile file text = .ok linked →
      ∀ (σ : Type) (e : Evaluation σ) (s : Session σ), e.set = linked →
        ∀ slot, .failed (.unknownSlot slot) ∉ (e.decisions.run s).1 := by
  refine ⟨link_eq_ok_iff, ?_, ?_⟩
  · intro h
    have hrules := byName_rules linked
    rw [byName_of_link h] at hrules
    refine ⟨names_of_link h, ?_, ?_, ?_⟩
    · rw [hrules, List.length_map]
    · intro k r hr
      rw [hrules, List.getElem?_map, hr]
      rfl
    · intro name slot
      exact slot_eq_some_iff (wellScoped_of_link h).distinct
  · rintro file text h σ e s rfl slot
    have hscoped : e.set.WellScoped := by
      rcases h with hlink | hcompile
      · exact wellScoped_of_link hlink
      · obtain ⟨source, -, hlink⟩ := compile_eq_ok hcompile
        exact wellScoped_of_link hlink
    exact Evaluation.decisions_find_slots hscoped s slot

end RuleSet

end Policy
