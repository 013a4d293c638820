import Policy.Proofs.Compiled
import Policy.Proofs.Decision
import Policy.Proofs.Evaluation.Running
import Policy.Proofs.Source.Printed.RuleSet
import Policy.Proofs.Traced

namespace Policy

/-! ## Groups with members -/

namespace Rule

variable {α β : Type}

mutual

/-- Every group in a rule has a member. -/
def Populated : Rule α → Prop
  | always _ | never | when _ _ => True
  | branch _ onTrue onFalse => onTrue.Populated ∧ onFalse.Populated
  | majority _ members | all _ members | any _ members | oneOf members =>
    members ≠ [] ∧ MembersPopulated members

def MembersPopulated : List (Rule α) → Prop
  | [] => True
  | rule :: rules => rule.Populated ∧ MembersPopulated rules

end

theorem mapMembers_ne_nil {ε : Type} {f : α → Except ε β} {rs : List (Rule α)}
    {ss : List (Rule β)} (hne : rs ≠ []) (h : mapMembers f rs = .ok ss) : ss ≠ [] := by
  rcases rs with - | ⟨r, rs⟩
  · exact absurd rfl hne
  · obtain ⟨s, -, h⟩ := bind_ok_iff.mp h
    obtain ⟨ss, -, h⟩ := bind_ok_iff.mp h
    cases h
    simp

mutual

theorem populated_of_mapRefs {ε : Type} {f : String → Except ε β} (r : Rule String)
    {s : Rule β} (hr : r.WellFormed) (h : r.mapRefs f = .ok s) : s.Populated := by
  cases r with
  | always decision | never =>
    cases h
    trivial
  | when condition decision =>
    obtain ⟨c, -, h⟩ := bind_ok_iff.mp h
    cases h
    trivial
  | branch condition onTrue onFalse =>
    obtain ⟨c, -, h⟩ := bind_ok_iff.mp h
    obtain ⟨t, ht, h⟩ := bind_ok_iff.mp h
    obtain ⟨e, he, h⟩ := bind_ok_iff.mp h
    cases h
    exact ⟨populated_of_mapRefs onTrue hr.2.1 ht, populated_of_mapRefs onFalse hr.2.2 he⟩
  | majority decision members | all decision members | any decision members =>
    obtain ⟨ms, hm, h⟩ := bind_ok_iff.mp h
    cases h
    exact ⟨mapMembers_ne_nil hr.2.1 hm, populated_of_mapMembers members hr.2.2 hm⟩
  | oneOf members =>
    obtain ⟨ms, hm, h⟩ := bind_ok_iff.mp h
    cases h
    exact ⟨mapMembers_ne_nil hr.1 hm, populated_of_mapMembers members hr.2 hm⟩

theorem populated_of_mapMembers {ε : Type} {f : String → Except ε β} (rs : List (Rule String))
    {ss : List (Rule β)} (hr : MembersWellFormed rs) (h : mapMembers f rs = .ok ss) :
    MembersPopulated ss := by
  cases rs with
  | nil =>
    cases h
    trivial
  | cons r rs =>
    obtain ⟨s, hs, h⟩ := bind_ok_iff.mp h
    obtain ⟨ss, hss, h⟩ := bind_ok_iff.mp h
    cases h
    exact ⟨populated_of_mapRefs r hr.1 hs, populated_of_mapMembers rs hr.2 hss⟩

end

end Rule

theorem RuleSet.populated_of_linkRules {set : RuleSet String} {number : Nat}
    {rules : List (Rule String)} {linked : List (Rule Slot)}
    (hw : ∀ r ∈ rules, r.WellFormed) (h : set.linkRules number rules = .ok linked) :
    ∀ s ∈ linked, s.Populated := by
  induction rules generalizing number linked with
  | nil =>
    cases h
    simp
  | cons r rs ih =>
    obtain ⟨s, hs, h⟩ := bind_ok_iff.mp h
    obtain ⟨ss, hss, h⟩ := bind_ok_iff.mp h
    cases h
    obtain ⟨hr, hrs⟩ := List.forall_mem_cons.mp hw
    exact List.forall_mem_cons.mpr ⟨Rule.populated_of_mapRefs r hr hs, ih hrs hss⟩

/-- A policy text has no way to write a group without members. -/
theorem populated_of_compile {file text : String} {linked : RuleSet Slot}
    (h : compile file text = .ok linked) : ∀ r ∈ linked.rules, r.Populated := by
  obtain ⟨set, hset, hlink⟩ := compile_eq_ok h
  exact RuleSet.populated_of_linkRules (Source.wellFormed_of_ruleSetOf hset).rules
    (RuleSet.link_eq_ok hlink).2.2

/-! ## Firing leaves -/

def Rule.members {α : Type} : Rule α → List (Rule α)
  | .majority _ members | .all _ members | .any _ members | .oneOf members => members
  | _ => []

namespace Evaluation

variable {σ : Type}

/-- While a rule is evaluated from a session on, a rule inside of it is evaluated from another
session on: a leg of a branch if the condition selects it, a member of a group after all members
in front of it. -/
inductive Reaches (e : Evaluation σ) (leaf : Rule Slot) (last : Session σ) :
    Rule Slot → Session σ → Prop
  | here : Reaches e leaf last leaf last
  | onTrue {condition onTrue onFalse s}
      (hc : ((e.condition condition).run s).1.result = .ok true)
      (h : Reaches e leaf last onTrue ((e.condition condition).run s).2) :
      Reaches e leaf last (.branch condition onTrue onFalse) s
  | onFalse {condition onTrue onFalse s}
      (hc : ((e.condition condition).run s).1.result = .ok false)
      (h : Reaches e leaf last onFalse ((e.condition condition).run s).2) :
      Reaches e leaf last (.branch condition onTrue onFalse) s
  | member {group before member after s} (hm : group.members = before ++ member :: after)
      (h : Reaches e leaf last member ((e.rules before).run s).2) :
      Reaches e leaf last group s

/-- A leaf that comes to a decision by itself: always, or because its condition holds. -/
inductive Decides (e : Evaluation σ) (d : Decision) : Rule Slot → Session σ → Prop
  | always {s} : Decides e d (.always d) s
  | when {condition s} (hc : ((e.condition condition).run s).1.result = .ok true) :
      Decides e d (.when condition d) s

/-- Some leaf that is reached while the rule is evaluated comes to the decision by itself. -/
def Fires (e : Evaluation σ) (d : Decision) (r : Rule Slot) (s : Session σ) : Prop :=
  ∃ leaf last, e.Reaches leaf last r s ∧ e.Decides d leaf last

variable {e : Evaluation σ} {d : Decision}

theorem Fires.of_member {group : Rule Slot} {before after : List (Rule Slot)} {m : Rule Slot}
    {s : Session σ} (hm : group.members = before ++ m :: after)
    (h : e.Fires d m ((e.rules before).run s).2) : e.Fires d group s := by
  obtain ⟨leaf, last, hreach, hdecides⟩ := h
  exact ⟨leaf, last, .member hm hreach, hdecides⟩

/-- Where the results of members decide, so does one of the members. -/
theorem exists_of_aggregate {f : List Decision → Decision} {label : String}
    {xs : List (Traced Decision)}
    (hf : ∀ ds, Traced.results xs = .ok ds → f ds = d → d ∈ ds)
    (h : (Traced.aggregate f label xs).result = .ok d) : ∃ x ∈ xs, x.result = .ok d := by
  rw [Traced.result_aggregate] at h
  obtain ⟨ds, hds, h⟩ := bind_ok_iff.mp h
  exact Traced.exists_of_mem_results hds (hf ds hds (Except.ok.inj h))

theorem length_of_results {xs : List (Traced Decision)} {ds : List Decision}
    (h : Traced.results xs = .ok ds) : ds.length = xs.length := by
  induction xs generalizing ds with
  | nil =>
    cases h
    rfl
  | cons x xs ih =>
    obtain ⟨d, -, h⟩ := bind_ok_iff.mp h
    obtain ⟨ds, hds, h⟩ := bind_ok_iff.mp h
    cases h
    simp only [List.length_cons, ih hds]

theorem length_rules (rs : List (Rule Slot)) (s : Session σ) :
    ((e.rules rs).run s).1.length = rs.length := by
  induction rs generalizing s with
  | nil => rfl
  | cons r rs ih => simp only [rules, run_bind, run_pure, List.length_cons, ih]

mutual

theorem fires_of_rule (hd : d ≠ .undecided) (r : Rule Slot) (s : Session σ) (hr : r.Populated)
    (h : ((e.rule r).run s).1.result = .ok d) : e.Fires d r s := by
  cases r with
  | always decision =>
    cases h
    exact ⟨_, _, .here, .always⟩
  | never =>
    cases h
    exact absurd rfl hd
  | when condition decision =>
    simp only [rule, run_bind, run_pure, Traced.result_map] at h
    obtain ⟨holds, hc, h⟩ := bind_ok_iff.mp h
    cases holds with
    | false =>
      cases h
      exact absurd rfl hd
    | true =>
      cases h
      exact ⟨_, _, .here, .when hc⟩
  | branch condition onTrue onFalse =>
    simp only [rule, run_bind, Traced.run_flatMap] at h
    have hresult := Traced.result_eq_parts ((e.condition condition).run s).1
    split at h
    · next holds first hp =>
      rw [hp] at hresult
      rw [Traced.result_follow] at h
      cases holds with
      | true =>
        obtain ⟨leaf, last, hreach, hdecides⟩ := fires_of_rule hd onTrue _ hr.1 h
        exact ⟨leaf, last, .onTrue hresult hreach, hdecides⟩
      | false =>
        obtain ⟨leaf, last, hreach, hdecides⟩ := fires_of_rule hd onFalse _ hr.2 h
        exact ⟨leaf, last, .onFalse hresult hreach, hdecides⟩
    · cases h
  | majority decision members =>
    have hx := exists_of_aggregate (fun ds _ hm => Decision.mem_of_majority hm hd) h
    obtain ⟨before, m, after, hm, hfires⟩ := fires_of_members hd members s hr.2 hx
    exact Fires.of_member hm hfires
  | all decision members =>
    have hx := exists_of_aggregate (fun ds hds hm => Decision.mem_of_unanimous (by
      have hlen := (length_of_results hds).trans (length_rules members s)
      have hpos := List.length_pos_iff.mpr hr.1
      exact List.length_pos_iff.mp (by omega)) hm hd) h
    obtain ⟨before, m, after, hm, hfires⟩ := fires_of_members hd members s hr.2 hx
    exact Fires.of_member hm hfires
  | any decision members =>
    have hx := exists_of_aggregate (fun ds _ hm => Decision.mem_of_anyOf hm hd) h
    obtain ⟨before, m, after, hm, hfires⟩ := fires_of_members hd members s hr.2 hx
    exact Fires.of_member hm hfires
  | oneOf members =>
    have hx := exists_of_aggregate (fun ds _ hm => Decision.mem_of_exclusive hm hd) h
    obtain ⟨before, m, after, hm, hfires⟩ := fires_of_members hd members s hr.2 hx
    exact Fires.of_member hm hfires

theorem fires_of_members (hd : d ≠ .undecided) (rs : List (Rule Slot)) (s : Session σ)
    (hr : Rule.MembersPopulated rs) (h : ∃ x ∈ ((e.rules rs).run s).1, x.result = .ok d) :
    ∃ before m after, rs = before ++ m :: after ∧
      e.Fires d m ((e.rules before).run s).2 := by
  cases rs with
  | nil =>
    obtain ⟨x, hx, -⟩ := h
    cases hx
  | cons r rs =>
    obtain ⟨x, hx, hresult⟩ := h
    rcases List.mem_cons.mp hx with rfl | hx
    · exact ⟨[], r, rs, rfl, fires_of_rule hd r s hr.1 hresult⟩
    · obtain ⟨before, m, after, rfl, hfires⟩ :=
        fires_of_members hd rs ((e.rule r).run s).2 hr.2 ⟨x, hx, hresult⟩
      exact ⟨r :: before, m, after, rfl, hfires⟩

end

/-- A rule of a compiled policy comes to a decision only where one of its leaves fires. -/
theorem fires_of_permit_or_deny (file text : String) (e : Evaluation σ) (s : Session σ)
    (r : Rule Slot) (d : Decision) (hset : compile file text = .ok e.set) (hr : r ∈ e.set.rules)
    (hd : d = .permit ∨ d = .deny) (h : ((e.rule r).run s).1.result = .ok d) :
    e.Fires d r s := by
  have hne : d ≠ .undecided := by
    rcases hd with rfl | rfl
    · decide
    · decide
  exact fires_of_rule hne r s (populated_of_compile hset r hr) h

/-- A policy whose only rule lets the user root in. -/
def rootAlone : RuleSet String where
  attributes := [⟨"user", .request "user"⟩]
  rules := [.any .permit [.when (.equal (.attr "user") (.string "root")) .permit, .always .deny]]

/-- The policy once it is linked, put to a request of root. -/
def rootRequest : Evaluation Unit where
  set :=
    ⟨[⟨"user", .request "user"⟩],
      [.any .permit [.when (.equal (.attr 0) (.string "root")) .permit, .always .deny]]⟩
  request := [("user", "root")]
  service := .disabled
  depthLimit := defaultDepth

theorem rootRequest_fires :
    rootRequest.Fires .permit
      (.any .permit [.when (.equal (.attr 0) (.string "root")) .permit, .always .deny])
      ⟨(), []⟩ :=
  fires_of_permit_or_deny "root.policy" (Source.print rootAlone) rootRequest _ _ _
    (Source.compile_print _ (by decide) (by decide) (by rfl)) (by decide) (by decide) (by rfl)

end Evaluation

end Policy
