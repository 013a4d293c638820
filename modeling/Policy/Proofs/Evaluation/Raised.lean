import Policy.Proofs.Evaluation.Faults
import Policy.Proofs.Evaluation.References

namespace Policy

/-- Whether the fault is one of the limit on how far attributes are looked into. -/
def Fault.ofDepth : Fault → Bool
  | tooDeep _ _ => true
  | _ => false

theorem Fault.ofDepth_of_not_ofReference {fault : Fault} (h : fault.ofReference = false) :
    fault.ofDepth = false := by
  cases fault with
  | cycle name | tooDeep name limit | unknownSlot slot => cases h
  | _ => rfl

/-! ## What watched computations raise

Unlike the fault that a result failed with, the faults that are raised also show what went wrong
behind it. -/

/-- Only faults that are allowed are raised. -/
def Raises {σ α : Type} (allowed : Fault → Prop) (y : Watched σ α) : Prop :=
  ∀ w, (∀ fault ∈ w.raised, allowed fault) → ∀ fault ∈ (y.run w).2.raised, allowed fault

namespace Raises

variable {σ α β γ ι : Type} {allowed : Fault → Prop} {good : α → Prop}

theorem pure (a : α) : Raises allowed (pure a : Watched σ α) := fun _ h => h

theorem bind {y : Watched σ α} {next : α → Watched σ β} (h : Raises allowed y)
    (hn : ∀ a, Raises allowed (next a)) : Raises allowed (y >>= next) :=
  fun w hw => hn (y.run w).1 (y.run w).2 (h w hw)

theorem raise {fault : Fault} (h : allowed fault) :
    Raises allowed (Watched.raise fault : Watched σ (Option α)) :=
  fun _ hw => List.forall_mem_append.mpr ⟨hw, List.forall_mem_singleton.mpr h⟩

theorem settle {r : Except Fault α} (h : Meets good allowed r) :
    Raises allowed (Watched.settle r : Watched σ (Option α)) := by
  cases r with
  | ok a => exact pure _
  | error fault => exact raise h

theorem proceed {next : α → Watched σ (Option β)} (hn : ∀ a, Raises allowed (next a))
    (x : Option α) : Raises allowed (Watched.proceed next x) := by
  cases x with
  | none => exact pure _
  | some a => exact hn a

theorem settleBoth {f : α → β → Except Fault γ} {good : γ → Prop}
    (hf : ∀ a b, Meets good allowed (f a b)) (x : Option α) (y : Option β) :
    Raises allowed (Watched.settleBoth f x y : Watched σ (Option γ)) := by
  cases x with
  | none => exact pure _
  | some a =>
    cases y with
    | none => exact pure _
    | some b => exact settle (hf a b)

theorem settleBoth_ok (f : α → β → γ) (x : Option α) (y : Option β) :
    Raises allowed (Watched.settleBoth (fun a b => .ok (f a b)) x y : Watched σ (Option γ)) :=
  have hok : ∀ a b, Meets (fun _ => True) allowed (.ok (f a b)) := fun _ _ => trivial
  settleBoth hok x y

theorem entries {f : ι → Watched σ (Option α)} (h : ∀ i, Raises allowed (f i))
    (entries : List (String × ι)) : Raises allowed (Watched.entries f entries) := by
  induction entries with
  | nil => exact pure _
  | cons entry entries ih => exact (h entry.2).bind (proceed fun a => ih.bind fun _ => pure _)

end Raises

/-! ## Runs -/

namespace Evaluation

variable {σ : Type} {e : Evaluation σ} {allowed : Fault → Prop}

section Confined

variable (h : e.Confines (fun _ => True) (fun _ => True) allowed)

include h

theorem Confines.raises_lookup (key : String) : Raises allowed (e.watchLookup key) := by
  have hkey := h.lookup key trivial
  unfold Evaluation.lookup at hkey
  unfold watchLookup
  cases hget : e.request.get? key with
  | some text => exact Raises.pure _
  | none =>
    rw [hget] at hkey
    exact Raises.raise hkey

theorem Confines.raises_call (url : String) (method : Method) (params : List (String × Value)) :
    Raises allowed (e.watchCall url method params) := by
  intro w hw
  have hcall := h.call url method params trivial (fun _ _ => trivial) w.session
  simp only [Evaluation.call, run_bind] at hcall
  simp only [watchCall, run_bind, Watched.run_within]
  revert hcall
  cases ((e.service.request ⟨url, method, params⟩).run w.session).1 with
  | ok body => exact fun _ => hw
  | error fault => exact fun hfault => Raises.raise hfault _ hw

theorem Confines.raises_termWith {deref : Slot → Watched σ (Option Value)} (t : Term Slot)
    (hderef : ∀ slot, Raises allowed (deref slot)) :
    Raises allowed (e.watchTermWith deref t) := by
  induction t with
  | string text | number n => exact Raises.pure _
  | attr slot => exact hderef slot
  | coerce operand kind ih =>
    exact ih.bind (Raises.proceed fun v => Raises.settle (h.coerce v kind trivial))
  | binary op lhs rhs ihl ihr =>
    have happly := fun a b => h.apply op a b trivial trivial
    exact ihl.bind fun x => ihr.bind fun y => Raises.settleBoth happly x y
  | request key => exact h.raises_lookup key
  | rest url method params =>
    exact (Raises.entries hderef params).bind (Raises.proceed (h.raises_call url method))

theorem Confines.raises_condition (hterm : ∀ t, Raises allowed (e.watchTerm t))
    (c : Condition Slot) : Raises allowed (e.watchCondition c) := by
  induction c with
  | not inner ih => exact ih.bind fun _ => Raises.pure _
  | and lhs rhs ihl ihr | or lhs rhs ihl ihr =>
    exact ihl.bind fun x => ihr.bind fun y => Raises.settleBoth_ok _ x y
  | equal lhs rhs =>
    exact (hterm lhs).bind fun x => (hterm rhs).bind fun y => Raises.settleBoth_ok _ x y
  | greater lhs rhs =>
    have hgreater := fun a b => h.greater a b trivial trivial
    exact (hterm lhs).bind fun x => (hterm rhs).bind fun y => Raises.settleBoth hgreater x y

end Confined

mutual

theorem Confines.raises_rule (h : e.Confines (fun _ => True) (fun _ => True) allowed)
    (hterm : ∀ t, Raises allowed (e.watchTerm t)) (r : Rule Slot) :
    Raises allowed (e.watchRule r) := by
  cases r with
  | always decision | never => exact Raises.pure _
  | when condition decision =>
    exact (h.raises_condition hterm condition).bind fun _ => Raises.pure _
  | branch condition onTrue onFalse =>
    refine (h.raises_condition hterm condition).bind (Raises.proceed fun holds => ?_)
    cases holds with
    | true => exact Confines.raises_rule h hterm onTrue
    | false => exact Confines.raises_rule h hterm onFalse
  | majority decision members | all decision members | any decision members | oneOf members =>
    exact (Confines.raises_rules h hterm members).bind fun _ => Raises.pure _

theorem Confines.raises_rules (h : e.Confines (fun _ => True) (fun _ => True) allowed)
    (hterm : ∀ t, Raises allowed (e.watchTerm t)) (rs : List (Rule Slot)) :
    Raises allowed (e.watchRules rs) := by
  cases rs with
  | nil => exact Raises.pure _
  | cons r rs =>
    refine (Confines.raises_rule h hterm r).bind fun x => ?_
    exact (Confines.raises_rules h hterm rs).bind fun xs => Raises.pure _

end

/-! ## Enough depth

A chain never holds an attribute twice, as it would be found to be a cycle first. -/

section Ample

variable (hlimit : e.set.attributes.length ≤ e.depthLimit)

include hlimit

/-- By induction on the room. Once none is left, all attributes are on the chain, and the one that
is looked into is found there. -/
theorem raises_attrAt (room : Nat) (chain : List Slot) (slot : Slot)
    (hroom : chain.length + room = e.depthLimit) (hnodup : chain.Nodup)
    (hin : ∀ earlier ∈ chain, earlier < e.set.attributes.length) :
    Raises (·.ofDepth = false) (e.watchAttrAt room chain slot) := by
  induction room using Nat.strongRecOn generalizing chain slot with
  | ind room ih =>
    unfold watchAttrAt
    cases ha : e.set.attributes[slot]? with
    | none => exact Raises.raise rfl
    | some a =>
      dsimp only
      split
      · exact Raises.raise rfl
      · next hnew =>
        have hlt : slot < e.set.attributes.length := (List.getElem?_eq_some_iff.mp ha).1
        have hnodup' : (slot :: chain).Nodup :=
          List.nodup_cons.mpr ⟨mt List.contains_iff_mem.mpr hnew, hnodup⟩
        have hin' : ∀ earlier ∈ slot :: chain, earlier < e.set.attributes.length :=
          List.forall_mem_cons.mpr ⟨hlt, hin⟩
        have hlength : (slot :: chain).length = chain.length + 1 := List.length_cons
        cases room with
        | zero =>
          have hall := RuleSet.length_le_of_nodup hnodup' hin'
          omega
        | succ room =>
          have hconfines := e.confines_of_own fun _ => Fault.ofDepth_of_not_ofReference
          refine hconfines.raises_termWith a.value fun next => ?_
          exact ih room (Nat.lt_succ_self room) (slot :: chain) next (by omega) hnodup' hin'

theorem raises_term (t : Term Slot) : Raises (·.ofDepth = false) (e.watchTerm t) := by
  have hconfines := e.confines_of_own fun _ => Fault.ofDepth_of_not_ofReference
  refine hconfines.raises_termWith t fun slot => ?_
  exact raises_attrAt hlimit _ [] slot (Nat.zero_add _) List.nodup_nil fun _ hmem => nomatch hmem

theorem raises_condition (c : Condition Slot) :
    Raises (·.ofDepth = false) (e.watchCondition c) :=
  (e.confines_of_own fun _ => Fault.ofDepth_of_not_ofReference).raises_condition
    (raises_term hlimit) c

theorem raises_rule (r : Rule Slot) : Raises (·.ofDepth = false) (e.watchRule r) :=
  (e.confines_of_own fun _ => Fault.ofDepth_of_not_ofReference).raises_rule
    (raises_term hlimit) r

end Ample

end Evaluation

end Policy
