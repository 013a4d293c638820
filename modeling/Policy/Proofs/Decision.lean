import Mathlib.Data.List.Count
import Mathlib.Data.List.Perm.Basic
import Policy.Decision

namespace Policy.Decision

variable {target d : Decision} {members others : List Decision}

/-! ## Decisions of groups

However a group counts its members, it decides only for what one of them decided. -/

theorem mem_of_majority (h : majority target members = d) (hd : d ≠ undecided) :
    d ∈ members := by
  unfold majority at h
  split at h
  · next hcount =>
    subst h
    exact List.count_pos_iff.mp (by omega)
  · exact absurd h.symm hd

/-- Members are needed, since all of no members agree. -/
theorem mem_of_unanimous (hne : members ≠ []) (h : unanimous target members = d)
    (hd : d ≠ undecided) : d ∈ members := by
  unfold unanimous at h
  split at h
  · next hall =>
    subst h
    obtain ⟨m, hm⟩ := List.exists_mem_of_ne_nil members hne
    have heq : m = target := by simpa using List.all_eq_true.mp hall m hm
    exact heq ▸ hm
  · exact absurd h.symm hd

theorem mem_of_anyOf (h : anyOf target members = d) (hd : d ≠ undecided) : d ∈ members := by
  unfold anyOf at h
  split at h
  · next hc =>
    subst h
    simpa using hc
  · exact absurd h.symm hd

theorem mem_of_exclusive (h : exclusive members = d) (hd : d ≠ undecided) : d ∈ members := by
  unfold exclusive at h
  split at h
  · next m hm =>
    subst h
    have hin : m ∈ members.filter (· ≠ undecided) := by
      rw [hm]
      exact List.mem_singleton_self m
    exact (List.mem_filter.mp hin).1
  · exact absurd h.symm hd

/-! ## What decides

For a target other than being undecided, a group decides for it exactly if enough of its members
do. -/

theorem majority_eq_iff (hd : d ≠ undecided) :
    majority d members = d ↔ members.length < 2 * members.count d := by
  simp [majority, hd.symm]

theorem unanimous_eq_iff (hd : d ≠ undecided) : unanimous d members = d ↔ ∀ m ∈ members, m = d := by
  simp [unanimous, hd.symm]

theorem anyOf_eq_iff (hd : d ≠ undecided) : anyOf d members = d ↔ d ∈ members := by
  simp [anyOf, hd.symm]

theorem anyOf_eq_undecided (h : d ∉ members) : anyOf d members = undecided := by
  simp [anyOf, h]

theorem exclusive_eq_iff (hd : d ≠ undecided) :
    exclusive members = d ↔ members.filter (· ≠ undecided) = [d] := by
  unfold exclusive
  split
  · next m hm =>
    rw [hm]
    exact ⟨congrArg fun d => [d], fun h => List.singleton_inj.mp h⟩
  · next hother => exact ⟨fun h => absurd h.symm hd, fun h => absurd h (hother d)⟩

/-! ## The order of the members -/

theorem majority_perm (h : members.Perm others) :
    majority target members = majority target others := by
  rw [majority, majority, h.length_eq, h.count_eq]

theorem unanimous_perm (h : members.Perm others) :
    unanimous target members = unanimous target others := by
  rw [unanimous, unanimous, h.all_eq]

theorem anyOf_perm (h : members.Perm others) : anyOf target members = anyOf target others := by
  rw [anyOf, anyOf, h.contains_eq]

theorem exclusive_perm (h : members.Perm others) : exclusive members = exclusive others := by
  have hdecided := h.filter (· ≠ undecided)
  unfold exclusive
  split
  · next d hd =>
    have hothers : others.filter (· ≠ undecided) = [d] :=
      (List.singleton_perm.mp (hd ▸ hdecided)).symm
    rw [hothers]
  · next hother =>
    split
    · next d hd => exact absurd (List.perm_singleton.mp (hd ▸ hdecided)) (hother d)
    · rfl

/-! ## Strength -/

/-- Where all of some members agree, so do most of them. -/
theorem majority_of_unanimous (hd : d ≠ undecided) (hne : members ≠ [])
    (h : unanimous d members = d) : majority d members = d := by
  have hall := (unanimous_eq_iff hd).mp h
  have hcount : members.count d = members.length :=
    List.count_eq_length.mpr fun m hm => (hall m hm).symm
  have hpos : 0 < members.length := List.length_pos_of_ne_nil hne
  exact (majority_eq_iff hd).mpr (by omega)

theorem anyOf_of_majority (hd : d ≠ undecided) (h : majority d members = d) :
    anyOf d members = d :=
  (anyOf_eq_iff hd).mpr (mem_of_majority h hd)

/-- Each member counts for one decision at most. -/
theorem count_add_count_le {d' : Decision} (hne : d ≠ d') (members : List Decision) :
    members.count d + members.count d' ≤ members.length := by
  induction members with
  | nil => exact Nat.le_refl 0
  | cons m members ih =>
    simp only [List.count_cons, List.length_cons, beq_iff_eq]
    by_cases hm : m = d
    · have hm' : m ≠ d' := hm ▸ hne
      rw [if_pos hm, if_neg hm']
      omega
    · rw [if_neg hm]
      split <;> omega

/-- More than half of some members cannot have decided one thing and more than half another. -/
theorem majority_unique {d' : Decision} (hd : d ≠ undecided) (hd' : d' ≠ undecided)
    (h : majority d members = d) (h' : majority d' members = d') : d = d' := by
  by_contra hne
  have hboth := count_add_count_le hne members
  have hmost := (majority_eq_iff hd).mp h
  have hmost' := (majority_eq_iff hd').mp h'
  omega

theorem anyOf_of_exclusive (hd : d ≠ undecided) (h : exclusive members = d) :
    anyOf d members = d :=
  (anyOf_eq_iff hd).mpr (mem_of_exclusive h hd)

/-- The decision against the given one. -/
def opposite : Decision → Decision
  | permit => deny
  | deny => permit
  | undecided => undecided

theorem opposite_ne_undecided (hd : d ≠ undecided) : d.opposite ≠ undecided := by
  cases d with
  | undecided => exact absurd rfl hd
  | permit | deny => decide

theorem opposite_ne_self (hd : d ≠ undecided) : d.opposite ≠ d := by
  cases d with
  | undecided => exact absurd rfl hd
  | permit | deny => decide

/-- If one member alone has decided, no member has decided against it. -/
theorem anyOf_opposite_of_exclusive (hd : d ≠ undecided) (h : exclusive members = d) :
    anyOf d.opposite members = undecided := by
  have honly := (exclusive_eq_iff hd).mp h
  apply anyOf_eq_undecided
  intro hmem
  have hdecided : d.opposite ∈ members.filter (· ≠ undecided) :=
    List.mem_filter.mpr ⟨hmem, by simpa using opposite_ne_undecided hd⟩
  rw [honly] at hdecided
  exact opposite_ne_self hd (List.mem_singleton.mp hdecided)

end Policy.Decision
