import Policy.Proofs.Evaluation.Quoted
import Mathlib.Data.List.Perm.Subperm
import Mathlib.Logic.Relation

namespace Policy

/-! ## The graph of references -/

namespace RuleSet

variable (set : RuleSet Slot)

/-- The first slot holds an attribute whose value refers to the second one. -/
def Refers (slot next : Slot) : Prop :=
  ∃ a, set.attributes[slot]? = some a ∧ next ∈ a.value.refs

/-- The term refers to the slot, by itself or through the attributes that it refers to. -/
def LeadsTo (t : Term Slot) (slot : Slot) : Prop :=
  ∃ first ∈ t.refs, Relation.ReflTransGen set.Refers first slot

/-- The slots along a path of references that starts in a term, last one first. -/
inductive Trail (t : Term Slot) : List Slot → Prop
  | first {slot} (h : slot ∈ t.refs) : Trail t [slot]
  | step {slot next before} (h : Trail t (slot :: before)) (hr : set.Refers slot next) :
      Trail t (next :: slot :: before)

/-- Some attribute that the term leads to refers to itself, at last. -/
def Cyclic (t : Term Slot) : Prop :=
  ∃ slot, set.LeadsTo t slot ∧ Relation.TransGen set.Refers slot slot

/-- The term leads to a slot that holds no attribute. -/
def Dangling (t : Term Slot) : Prop :=
  ∃ slot, set.LeadsTo t slot ∧ set.attributes.length ≤ slot

/-- Some path of references from the term goes through more attributes than the limit. -/
def Deep (t : Term Slot) (limit : Nat) : Prop :=
  ∃ trail, set.Trail t trail ∧ limit < trail.length ∧ ∀ slot ∈ trail, slot < set.attributes.length

/-- The slot holds an attribute, and so do all that it leads to, with so many attributes on the
longest way. -/
inductive Grounded : Nat → Slot → Prop
  | intro {room slot a} (ha : set.attributes[slot]? = some a)
      (h : ∀ next ∈ a.value.refs, Grounded room next) : Grounded (room + 1) slot

variable {set} {t : Term Slot}

theorem Refers.lt {slot next : Slot} (h : set.Refers slot next) : slot < set.attributes.length := by
  obtain ⟨a, ha, -⟩ := h
  exact (List.getElem?_eq_some_iff.mp ha).1

/-- There are no more slots in a row without repetitions than attributes. -/
theorem length_le_of_nodup {slots : List Slot} (hnodup : slots.Nodup)
    (hin : ∀ slot ∈ slots, slot < set.attributes.length) :
    slots.length ≤ set.attributes.length := by
  have hsub : slots ⊆ List.range set.attributes.length :=
    fun slot hslot => List.mem_range.mpr (hin slot hslot)
  have hlength := (List.subperm_of_subset hnodup hsub).length_le
  rwa [List.length_range] at hlength

theorem Grounded.lt {room : Nat} {slot : Slot} (h : set.Grounded room slot) :
    slot < set.attributes.length := by
  obtain ⟨ha, -⟩ := h
  exact (List.getElem?_eq_some_iff.mp ha).1

theorem Grounded.next {room : Nat} {slot next : Slot} (h : set.Grounded (room + 1) slot)
    (hr : set.Refers slot next) : set.Grounded room next := by
  obtain ⟨ha, hnext⟩ := h
  obtain ⟨b, hb, hmem⟩ := hr
  cases ha.symm.trans hb
  exact hnext next hmem

/-- By induction on what lies below the slot: a cycle through it also goes through the next slot. -/
theorem Grounded.not_transGen {room : Nat} {slot : Slot} (h : set.Grounded room slot) :
    ¬ Relation.TransGen set.Refers slot slot := by
  induction h with
  | @intro room slot a ha hnext ih =>
    intro hcycle
    obtain ⟨next, hr, hback⟩ := Relation.TransGen.head'_iff.mp hcycle
    obtain ⟨b, hb, hmem⟩ := id hr
    cases ha.symm.trans hb
    exact ih next hmem (Relation.TransGen.tail' hback hr)

namespace Trail

theorem leadsTo {slot : Slot} {before : List Slot} (h : set.Trail t (slot :: before)) :
    set.LeadsTo t slot := by
  induction before generalizing slot with
  | nil =>
    cases h with
    | first hmem => exact ⟨slot, hmem, .refl⟩
  | cons last before ih =>
    cases h with
    | step hbefore hr =>
      obtain ⟨first, hfirst, hpath⟩ := ih hbefore
      exact ⟨first, hfirst, hpath.tail hr⟩

theorem transGen {slot : Slot} {before : List Slot} (h : set.Trail t (slot :: before)) :
    ∀ earlier ∈ before, Relation.TransGen set.Refers earlier slot := by
  induction before generalizing slot with
  | nil => simp
  | cons last before ih =>
    cases h with
    | step hbefore hr =>
      refine List.forall_mem_cons.mpr ⟨.single hr, fun earlier hmem => ?_⟩
      exact (ih hbefore earlier hmem).tail hr

theorem lt {slot : Slot} {before : List Slot} (h : set.Trail t (slot :: before)) :
    ∀ earlier ∈ before, earlier < set.attributes.length := by
  intro earlier hmem
  obtain ⟨next, hr, -⟩ := Relation.TransGen.head'_iff.mp (h.transGen earlier hmem)
  exact hr.lt

/-- Each attribute on the way leaves one less to those it refers to. -/
theorem grounded {limit : Nat} (hg : ∀ slot ∈ t.refs, set.Grounded limit slot) {slot : Slot}
    {before : List Slot} (h : set.Trail t (slot :: before)) :
    ∃ room, before.length + room = limit ∧ set.Grounded room slot := by
  induction before generalizing slot with
  | nil =>
    cases h with
    | first hmem => exact ⟨limit, Nat.zero_add limit, hg slot hmem⟩
  | cons last before ih =>
    cases h with
    | step hbefore hr =>
      obtain ⟨room, hroom, hlast⟩ := ih hbefore
      cases room with
      | zero => cases hlast
      | succ room => exact ⟨room, by simp only [List.length_cons]; omega, hlast.next hr⟩

end Trail

theorem LeadsTo.exists_trail {slot : Slot} (h : set.LeadsTo t slot) :
    ∃ before, set.Trail t (slot :: before) := by
  obtain ⟨first, hfirst, hpath⟩ := h
  induction hpath with
  | refl => exact ⟨[], .first hfirst⟩
  | tail _ hr ih =>
    obtain ⟨before, hbefore⟩ := ih
    exact ⟨_, .step hbefore hr⟩

/-- Where all that a term refers to is grounded, nothing is wrong with its references. -/
theorem sound_of_grounded {limit : Nat} (hg : ∀ slot ∈ t.refs, set.Grounded limit slot) :
    ¬ set.Cyclic t ∧ ¬ set.Dangling t ∧ ¬ set.Deep t limit := by
  refine ⟨?_, ?_, ?_⟩
  · rintro ⟨slot, hleads, hcycle⟩
    obtain ⟨before, htrail⟩ := hleads.exists_trail
    obtain ⟨room, -, hslot⟩ := htrail.grounded hg
    exact hslot.not_transGen hcycle
  · rintro ⟨slot, hleads, hout⟩
    obtain ⟨before, htrail⟩ := hleads.exists_trail
    obtain ⟨room, -, hslot⟩ := htrail.grounded hg
    exact absurd hslot.lt (Nat.not_lt.mpr hout)
  · rintro ⟨trail, htrail, hlong, -⟩
    cases trail with
    | nil => cases htrail
    | cons slot before =>
      obtain ⟨room, hroom, hslot⟩ := htrail.grounded hg
      cases hslot with
      | intro ha hnext =>
        simp only [List.length_cons] at hlong
        omega

end RuleSet

/-! ## Faults of references -/

namespace Evaluation

variable {σ : Type} (e : Evaluation σ)

/-- No step but that of looking into an attribute fails with a fault of references. -/
theorem confines_of_own {allowed : Fault → Prop}
    (hown : ∀ fault, fault.ofReference = false → allowed fault) :
    e.Confines (fun _ => True) (fun _ => True) allowed := by
  have hgiven : e.GivenPlain fun _ => True := ⟨fun _ _ => trivial, fun _ _ _ _ => trivial⟩
  have hwritten : WrittenPlain fun _ => True :=
    ⟨fun _ => trivial, fun _ => trivial, fun _ => trivial⟩
  exact hgiven.confines hwritten fun fault hf => hown fault hf.own

/-- What a fault of references tells about the references of the term that fails with it. -/
def Truthful (t : Term Slot) : Fault → Prop
  | .cycle name => ∃ slot a, e.set.LeadsTo t slot ∧ Relation.TransGen e.set.Refers slot slot ∧
      e.set.attributes[slot]? = some a ∧ a.name = name
  | .tooDeep _ _ => e.set.Deep t e.depthLimit
  | .unknownSlot slot => e.set.LeadsTo t slot ∧ e.set.attributes.length ≤ slot
  | _ => True

theorem confines_truthful (t : Term Slot) :
    e.Confines (fun _ => True) (fun _ => True) (e.Truthful t) := by
  apply e.confines_of_own
  intro fault hown
  cases fault with
  | cycle name | tooDeep name limit | unknownSlot slot => cases hown
  | _ => trivial

theorem truthful_cycle {t : Term Slot} {slot : Slot} {chain : List Slot} {a : Attribute Slot}
    (htrail : e.set.Trail t (slot :: chain)) (hin : slot ∈ chain)
    (ha : e.set.attributes[slot]? = some a) : e.Truthful t (.cycle a.name) :=
  ⟨slot, a, htrail.leadsTo, htrail.transGen slot hin, ha, rfl⟩

/-- The chain is the way from the term to the slot. By induction on the room that it leaves. -/
theorem attrAt_grounded {t : Term Slot} (room : Nat) (chain : List Slot) (slot : Slot)
    (htrail : e.set.Trail t (slot :: chain)) (hroom : chain.length + room = e.depthLimit) :
    Ensures (fun _ => True ∧ e.set.Grounded room slot) (e.Truthful t)
      (e.attrAt room chain slot) := by
  induction room using Nat.strongRecOn generalizing chain slot with
  | ind room ih =>
    apply ensures_attrAt
    · intro hnone
      exact ⟨htrail.leadsTo, List.getElem?_eq_none_iff.mp hnone⟩
    · intro a ha hin
      exact e.truthful_cycle htrail hin ha
    · rintro a ha rfl
      have hlt : slot < e.set.attributes.length := (List.getElem?_eq_some_iff.mp ha).1
      have hlong : e.depthLimit < (slot :: chain).length := by
        rw [List.length_cons]
        omega
      exact ⟨slot :: chain, htrail, hlong, List.forall_mem_cons.mpr ⟨hlt, htrail.lt⟩⟩
    · rintro a less ha rfl
      have hderef : ∀ next ∈ a.value.refs,
          Ensures (fun _ => True ∧ e.set.Grounded less next) (e.Truthful t)
            (e.attrAt less (slot :: chain) next) := by
        intro next hnext
        apply ih less (Nat.lt_succ_self less)
        · exact .step htrail ⟨a, ha, hnext⟩
        · rw [List.length_cons]
          omega
      have hvalue := (e.confines_truthful t).termWith a.value (fun _ _ => trivial) hderef
      exact hvalue.imp (fun v hv => ⟨trivial, .intro ha hv.2⟩) fun _ hf => hf

theorem term_grounded (t : Term Slot) :
    Ensures (fun _ => True ∧ ∀ slot ∈ t.refs, e.set.Grounded e.depthLimit slot) (e.Truthful t)
      (e.term t) := by
  apply (e.confines_truthful t).termWith t (fun _ _ => trivial)
  intro slot hslot
  exact e.attrAt_grounded _ _ _ (.first hslot) (Nat.zero_add _)

/-- Evaluating a term finds out exactly whether its references are sound. It does not succeed if
they lead into a cycle, out of the attributes or through more of them than the limit, and no other
term fails for one of these reasons. An attribute that is said to refer to itself does so. -/
theorem term_finds_unsound_references (t : Term Slot) (s : Session σ) :
    (e.set.Cyclic t ∨ e.set.Dangling t ∨ e.set.Deep t e.depthLimit →
      ((e.term t).run s).1.isSuccess = false) ∧
    (¬ e.set.Cyclic t → ¬ e.set.Dangling t → ¬ e.set.Deep t e.depthLimit →
      ∀ fault, fault.ofReference → ((e.term t).run s).1 ≠ .failed fault) ∧
    ∀ name, ((e.term t).run s).1 = .failed (.cycle name) →
      ∃ slot a, e.set.LeadsTo t slot ∧ Relation.TransGen e.set.Refers slot slot ∧
        e.set.attributes[slot]? = some a ∧ a.name = name := by
  have h := e.term_grounded t s
  cases hx : ((e.term t).run s).1 with
  | success value label children =>
    rw [hx] at h
    obtain ⟨hcyclic, hdangling, hdeep⟩ := RuleSet.sound_of_grounded h.2
    refine ⟨?_, ?_, ?_⟩
    · rintro (hc | hd | hd)
      · exact absurd hc hcyclic
      · exact absurd hd hdangling
      · exact absurd hd hdeep
    · intro _ _ _ fault _ heq
      cases heq
    · intro name heq
      cases heq
  | failed fault =>
    rw [hx] at h
    refine ⟨fun _ => rfl, ?_, ?_⟩
    · intro hcyclic hdangling hdeep other hother heq
      cases heq
      cases fault with
      | cycle name =>
        obtain ⟨slot, a, hleads, hcycle, -⟩ := h
        exact hcyclic ⟨slot, hleads, hcycle⟩
      | tooDeep name limit => exact hdeep h
      | unknownSlot slot => exact hdangling ⟨slot, h⟩
      | _ => cases hother
    · intro name heq
      cases heq
      exact h

-- An attribute that is used twice is no cycle, and the limit counts the way down to it once.
example :
    let shared : RuleSet Slot :=
      ⟨[⟨"twice", .binary .plus (.attr 1) (.attr 1)⟩, ⟨"once", .number ⟨2, by decide⟩⟩], []⟩
    let e : Evaluation Unit := ⟨shared, [], .disabled, 2⟩
    ((e.term (.attr 0)).run ⟨(), []⟩).1.result = .ok (.number ⟨4, by decide⟩) := by rfl

end Evaluation

end Policy
