import Policy.Proofs.Decision
import Policy.Proofs.Evaluation.Isolated
import Mathlib.Data.Set.List

namespace Policy

/-! ## Ways to decide

A group takes up all of its members and then counts what they decided. Its kind only tells how. -/

/-- What a group makes of the decisions of its members. -/
inductive Fold where
  | majority (target : Decision)
  | all (target : Decision)
  | any (target : Decision)
  | oneOf

namespace Fold

def rule {α : Type} : Fold → List (Rule α) → Rule α
  | majority target, members => .majority target members
  | all target, members => .all target members
  | any target, members => .any target members
  | oneOf, members => .oneOf members

def decide : Fold → List Decision → Decision
  | majority target => Decision.majority target
  | all target => Decision.unanimous target
  | any target => Decision.anyOf target
  | oneOf => Decision.exclusive

def label : Fold → String
  | majority _ => "majority"
  | all _ => "all"
  | any _ => "any"
  | oneOf => "one-of"

theorem decide_perm (k : Fold) {ds es : List Decision} (h : ds.Perm es) :
    k.decide ds = k.decide es := by
  cases k with
  | majority target => exact Decision.majority_perm h
  | all target => exact Decision.unanimous_perm h
  | any target => exact Decision.anyOf_perm h
  | oneOf => exact Decision.exclusive_perm h

end Fold

/-! ## Outcomes one after another -/

section Outcomes

variable {ε α : Type}

theorem mapM_id_eq_ok_iff {outcomes : List (Except ε α)} {as : List α} :
    outcomes.mapM id = .ok as ↔ outcomes = as.map .ok := by
  induction outcomes generalizing as with
  | nil => exact pure_ok_iff.trans (by simp [eq_comm])
  | cons o outcomes ih =>
    rw [List.mapM_cons]
    constructor
    · intro h
      obtain ⟨a, ha, h⟩ := bind_ok_iff.mp h
      obtain ⟨rest, hrest, h⟩ := bind_ok_iff.mp h
      cases pure_ok_iff.mp h
      rw [List.map_cons, ← ih.mp hrest]
      exact congrArg (· :: outcomes) ha
    · intro h
      cases as with
      | nil => cases h
      | cons a rest =>
        obtain ⟨ho, houtcomes⟩ := List.cons.inj h
        simp only [ho, ih.mpr houtcomes, id, ok_bind]
        rfl

theorem exists_mapM_id_eq_ok_iff {outcomes : List (Except ε α)} :
    (∃ as, outcomes.mapM id = .ok as) ↔ ∀ o ∈ outcomes, ∃ a, o = .ok a := by
  simp only [mapM_id_eq_ok_iff]
  constructor
  · rintro ⟨as, rfl⟩
    exact List.forall_mem_map.mpr fun a _ => ⟨a, rfl⟩
  · intro h
    have hrange : outcomes ∈ Set.range (List.map (Except.ok : α → Except ε α)) := by
      rw [Set.range_list_map]
      exact fun o ho => (h o ho).imp fun a ha => ha.symm
    obtain ⟨as, has⟩ := hrange
    exact ⟨as, has.symm⟩

/-- In another order the outcomes are the same values, in some order, or none again. -/
theorem exists_perm_of_mapM_id {outcomes others : List (Except ε α)} {as : List α}
    (hperm : outcomes.Perm others) (h : outcomes.mapM id = .ok as) :
    ∃ bs, others.mapM id = .ok bs ∧ bs.Perm as := by
  have hothers : others.Perm (as.map .ok) := mapM_id_eq_ok_iff.mp h ▸ hperm.symm
  have hvalues : Relation.Comp (fun os bs => os = List.map .ok bs) List.Perm others as := by
    rwa [List.eq_map_comp_perm]
  obtain ⟨bs, hbs, hsame⟩ := hvalues
  exact ⟨bs, mapM_id_eq_ok_iff.mpr hbs, hsame⟩

end Outcomes

namespace Evaluation

variable {σ : Type} {e : Evaluation σ}

/-- What a rule comes to, without its explanation. -/
def verdict (e : Evaluation σ) (r : Rule Slot) (s : Session σ) : Except Fault Decision :=
  ((e.rule r).run s).1.result

theorem rule_fold (k : Fold) (members : List (Rule Slot)) :
    e.rule (k.rule members) =
      (do let xs ← e.rules members; pure (Traced.aggregate k.decide k.label xs)) := by
  cases k with
  | majority target | all target | any target | oneOf => rfl

section Constant

variable (h : e.service.Constant)

include h

theorem alike_rule (r : Rule Slot) : Alike (e.rule r) (e.rule r) :=
  (paired_constant h e.set.attributes e.set.rules e.set.rules e.request e.depthLimit).rule r
    fun _ _ => trivial

/-- A group comes to what it makes of the outcomes of its members, wherever each of them is taken
up. -/
theorem verdict_fold (k : Fold) (members : List (Rule Slot)) (s t : Session σ) :
    e.verdict (k.rule members) s =
      (members.map (e.verdict · t)).mapM id >>= fun ds => .ok (k.decide ds) := by
  have hmembers := results_rules_of_alike (alike_rule h) members s t
  rw [verdict, rule_fold, run_bind, run_pure, Traced.result_aggregate, Traced.results_eq_mapM,
    hmembers, List.map_map]
  rfl

theorem verdict_fold_eq_ok_iff (k : Fold) {members : List (Rule Slot)} {s : Session σ}
    {d : Decision} (t : Session σ) :
    e.verdict (k.rule members) s = .ok d ↔
      ∃ ds, (members.map (e.verdict · t)).mapM id = .ok ds ∧ k.decide ds = d := by
  rw [verdict_fold h k members s t, bind_ok_iff]
  simp only [Except.ok.injEq]

/-- A group of any kind succeeds exactly if all of its members do. -/
theorem exists_verdict_fold_iff (k : Fold) (members : List (Rule Slot)) (s t : Session σ) :
    (∃ d, e.verdict (k.rule members) s = .ok d) ↔ ∀ r ∈ members, ∃ d, e.verdict r t = .ok d := by
  have hmembers : (∀ o ∈ members.map (e.verdict · t), ∃ d, o = .ok d) ↔
      ∀ r ∈ members, ∃ d, e.verdict r t = .ok d := List.forall_mem_map
  rw [← hmembers, ← exists_mapM_id_eq_ok_iff]
  simp only [verdict_fold_eq_ok_iff h k t]
  exact ⟨fun ⟨_, ds, hds, _⟩ => ⟨ds, hds⟩, fun ⟨ds, hds⟩ => ⟨k.decide ds, ds, hds, rfl⟩⟩

theorem verdict_fold_eq_error_iff (k : Fold) {members : List (Rule Slot)} {s : Session σ}
    {fault : Fault} (t : Session σ) :
    e.verdict (k.rule members) s = .error fault ↔
      (members.map (e.verdict · t)).mapM id = .error fault := by
  rw [verdict_fold h k members s t]
  cases (members.map (e.verdict · t)).mapM id with
  | ok ds => simp
  | error other => simp

/-- Where one way to decide implies another, on as many decisions as there are members, it does so
on the members. -/
theorem verdict_of_decide (k k' : Fold) {members : List (Rule Slot)} {s t : Session σ}
    {d d' : Decision}
    (hdecide : ∀ ds, ds.length = members.length → k.decide ds = d → k'.decide ds = d')
    (hd : e.verdict (k.rule members) s = .ok d) : e.verdict (k'.rule members) t = .ok d' := by
  obtain ⟨ds, hds, hk⟩ := (verdict_fold_eq_ok_iff h k t).mp hd
  have hlength : ds.length = members.length := by
    have hall := congrArg List.length (mapM_id_eq_ok_iff.mp hds)
    simpa using hall.symm
  exact (verdict_fold_eq_ok_iff h k' t).mpr ⟨ds, hds, hdecide ds hlength hk⟩

theorem verdict_of_outcomes (k : Fold) {members others : List (Rule Slot)} {s t : Session σ}
    {d : Decision} (hperm : (members.map (e.verdict · s)).Perm (others.map (e.verdict · t)))
    (hd : e.verdict (k.rule members) s = .ok d) : e.verdict (k.rule others) t = .ok d := by
  obtain ⟨ds, hds, hk⟩ := (verdict_fold_eq_ok_iff h k s).mp hd
  obtain ⟨es, hes, hsame⟩ := exists_perm_of_mapM_id hperm hds
  refine (verdict_fold_eq_ok_iff h k t).mpr ⟨es, hes, ?_⟩
  rw [k.decide_perm hsame, hk]

theorem outcomes_perm {members others : List (Rule Slot)} (hperm : members.Perm others)
    (s t : Session σ) : (members.map (e.verdict · s)).Perm (others.map (e.verdict · t)) := by
  have hsame : (e.verdict · s) = (e.verdict · t) :=
    funext fun r => congrArg Traced.result (alike_rule h r s t)
  rw [hsame]
  exact hperm.map _

end Constant

/-- Where what comes of a call depends on the call alone, groups of all kinds succeed exactly if all
of their members do, and else fail with the same fault. Whether they succeed and what they decide
depends on nothing but how many members come to each outcome. So it does not depend on the order of
the members, two majorities never oppose each other, and a group that decides for a target does so
in each weaker way as well. -/
theorem groups_count_outcomes (e : Evaluation σ) (h : e.service.Constant)
    (members : List (Rule Slot)) (s t : Session σ) :
    (∀ k k' : Fold,
      ((∃ d, e.verdict (k.rule members) s = .ok d) ↔ ∀ r ∈ members, ∃ d, e.verdict r t = .ok d) ∧
      ((∃ d, e.verdict (k.rule members) s = .ok d) ↔ ∃ d, e.verdict (k'.rule members) t = .ok d) ∧
      ∀ fault, e.verdict (k.rule members) s = .error fault ↔
        e.verdict (k'.rule members) t = .error fault) ∧
    (∀ others, (members.map (e.verdict · s)).Perm (others.map (e.verdict · t)) →
      ∀ (k : Fold) d, e.verdict (k.rule members) s = .ok d ↔ e.verdict (k.rule others) t = .ok d) ∧
    (∀ others, members.Perm others →
      ∀ (k : Fold) d, e.verdict (k.rule members) s = .ok d ↔ e.verdict (k.rule others) t = .ok d) ∧
    ¬(e.verdict (.majority .permit members) s = .ok .permit ∧
      e.verdict (.majority .deny members) t = .ok .deny) ∧
    (members ≠ [] → ∀ d, d ≠ .undecided →
      (e.verdict (.all d members) s = .ok d → e.verdict (.majority d members) t = .ok d) ∧
      (e.verdict (.majority d members) s = .ok d → e.verdict (.any d members) t = .ok d) ∧
      (e.verdict (.oneOf members) s = .ok d →
        e.verdict (.any d members) t = .ok d ∧
          e.verdict (.any d.opposite members) t = .ok .undecided)) := by
  have hcount : ∀ others, (members.map (e.verdict · s)).Perm (others.map (e.verdict · t)) →
      ∀ (k : Fold) d, e.verdict (k.rule members) s = .ok d ↔
        e.verdict (k.rule others) t = .ok d := by
    intro others hperm k d
    exact ⟨verdict_of_outcomes h k hperm, verdict_of_outcomes h k hperm.symm⟩
  refine ⟨?together, hcount, ?order, ?opposed, ?strength⟩
  case together =>
    intro k k'
    have hmembers := exists_verdict_fold_iff h k members s t
    have hmembers' := exists_verdict_fold_iff h k' members t t
    refine ⟨hmembers, hmembers.trans hmembers'.symm, fun fault => ?_⟩
    rw [verdict_fold_eq_error_iff h k t, verdict_fold_eq_error_iff h k' t]
  case order =>
    intro others hperm
    exact hcount others (outcomes_perm h hperm s t)
  case opposed =>
    rintro ⟨hpermit, hdeny⟩
    obtain ⟨ds, hds, hmost⟩ := (verdict_fold_eq_ok_iff h (.majority .permit) t).mp hpermit
    obtain ⟨es, hes, hmost'⟩ := (verdict_fold_eq_ok_iff h (.majority .deny) t).mp hdeny
    cases Except.ok.inj (hds.symm.trans hes)
    exact absurd (Decision.majority_unique (by decide) (by decide) hmost hmost') (by decide)
  case strength =>
    intro hne d hd
    refine ⟨fun hall => ?_, fun hmost => ?_, fun hone => ⟨?_, ?_⟩⟩
    · refine verdict_of_decide h (.all d) (.majority d) (fun ds hlength hds => ?_) hall
      have hsome : ds ≠ [] := by
        rintro rfl
        exact hne (List.length_eq_zero_iff.mp hlength.symm)
      exact Decision.majority_of_unanimous hd hsome hds
    · exact verdict_of_decide h (.majority d) (.any d)
        (fun ds _ => Decision.anyOf_of_majority hd) hmost
    · exact verdict_of_decide h .oneOf (.any d)
        (fun ds _ => Decision.anyOf_of_exclusive hd) hone
    · exact verdict_of_decide h .oneOf (.any d.opposite)
        (fun ds _ => Decision.anyOf_opposite_of_exclusive hd) hone

/-- An attribute that is asked for, with a name for the place that it is asked at. -/
def placed : Evaluation Nat :=
  ⟨⟨[⟨"place", .rest "http://place" .get []⟩], []⟩, [], echo, 3⟩

/-- Two members that permit, one of them after it has counted in turn, and one that denies. -/
def panel : List (Rule Slot) :=
  [.always .permit, .always .deny,
    .any .permit [.never, .when (.equal (.attr 0) (.string "http://place")) .permit]]

/-- Most of them permit and not all do, whichever comes first. -/
theorem panel_permits :
    placed.service.Constant ∧ panel ≠ [] ∧ panel.Perm panel.reverse ∧
      placed.verdict (.majority .permit panel) ⟨0, []⟩ = .ok .permit ∧
      placed.verdict (.majority .permit panel.reverse) ⟨7, []⟩ = .ok .permit ∧
      placed.verdict (.any .permit panel) ⟨7, []⟩ = .ok .permit ∧
      placed.verdict (.majority .deny panel) ⟨7, []⟩ ≠ .ok .deny ∧
      placed.verdict (.all .permit panel) ⟨7, []⟩ = .ok .undecided := by
  have hservice : placed.service.Constant :=
    Service.Stateless.constant (fun _ _ _ => rfl) fun _ => rfl
  have hne : panel ≠ [] := List.cons_ne_nil _ _
  have hperm : panel.Perm panel.reverse := (List.reverse_perm panel).symm
  have hmost : placed.verdict (.majority .permit panel) ⟨0, []⟩ = .ok .permit := rfl
  obtain ⟨-, -, horder, hopposed, hstrength⟩ :=
    groups_count_outcomes placed hservice panel ⟨0, []⟩ ⟨7, []⟩
  obtain ⟨-, hany, -⟩ := hstrength hne .permit (by decide)
  refine ⟨hservice, hne, hperm, hmost, ?_, hany hmost, fun hdeny => hopposed ⟨hmost, hdeny⟩, rfl⟩
  exact (horder panel.reverse hperm (.majority .permit) .permit).mp hmost

end Evaluation

end Policy
