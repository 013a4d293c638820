import Policy.Compile
import Policy.Proofs.Linking
import Policy.Proofs.Source.Accepted

namespace Policy

variable {file text : String} {linked : RuleSet Slot}

/-- The parts of a policy text that was compiled. -/
theorem compile_eq_ok (h : compile file text = .ok linked) :
    ∃ set, Source.ruleSetOf text = .ok set ∧ set.link = .ok linked := by
  unfold compile at h
  split at h
  · cases h
  · next set hset =>
    split at h
    · cases h
    · next hl =>
      cases h
      exact ⟨set, hset, hl⟩

theorem wellFormed_byName_of_compile (h : compile file text = .ok linked) :
    linked.byName.WellFormed := by
  obtain ⟨set, hset, hlink⟩ := compile_eq_ok h
  rw [RuleSet.byName_of_link hlink]
  exact Source.wellFormed_of_ruleSetOf hset

/-- A compiled rule set is linked again from its own names. -/
theorem link_byName_of_compile (h : compile file text = .ok linked) :
    linked.byName.link = .ok linked := by
  obtain ⟨set, -, hlink⟩ := compile_eq_ok h
  rw [RuleSet.byName_of_link hlink]
  exact hlink

end Policy
