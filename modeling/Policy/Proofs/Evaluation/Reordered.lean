import Policy.Proofs.Evaluation.Linked
import Policy.Proofs.Renaming
import Policy.Service.Script
import Mathlib.Data.List.Perm.Basic

namespace Policy

/-! ## Attributes in other slots -/

namespace RuleSet

/-- Every attribute of the first rule set stands in the second one, in the slot that its own slot is
renamed to and with references that are renamed in the same way. -/
structure Renamed (π : Slot → Slot) (set set' : RuleSet Slot) : Prop where
  kept : ∀ slot a, set.attributes[slot]? = some a →
    set'.attributes[π slot]? = some (a.rename π)
  apart : ∀ slot < set.attributes.length, ∀ next < set.attributes.length,
    π slot = π next → slot = next
  inRange : ∀ slot ∈ set.refs, slot < set.attributes.length

namespace Renamed

variable {π : Slot → Slot} {set set' : RuleSet Slot}

theorem lt_of_value (h : Renamed π set set') {slot : Slot} {a : Attribute Slot}
    (ha : set.attributes[slot]? = some a) :
    ∀ next ∈ a.value.refs, next < set.attributes.length := by
  intro next hnext
  have hmem : a ∈ set.attributes := List.mem_of_getElem? ha
  exact h.inRange next (List.mem_append_left _ (List.mem_flatMap.mpr ⟨a, hmem, hnext⟩))

theorem mem_map_iff (h : Renamed π set set') {chain : List Slot}
    (hchain : ∀ slot ∈ chain, slot < set.attributes.length) {slot : Slot}
    (hslot : slot < set.attributes.length) : π slot ∈ chain.map π ↔ slot ∈ chain := by
  constructor
  · intro hmem
    obtain ⟨next, hnext, heq⟩ := List.mem_map.mp hmem
    have hsame := h.apart next (hchain next hnext) slot hslot heq
    rwa [← hsame]
  · exact fun hmem => List.mem_map_of_mem hmem

end Renamed

end RuleSet

/-! ## Runs on renamed references -/

namespace Evaluation

variable {σ : Type} {e : Evaluation σ} {π : Slot → Slot} {set' : RuleSet Slot}

theorem entryParts_rename {deref deref' : Slot → Run σ (Traced Value)}
    {params : List (String × Slot)} (h : ∀ p ∈ params, deref' (π p.2) = deref p.2) :
    Traced.entryParts deref' (params.map fun p => (p.1, π p.2)) =
      Traced.entryParts deref params := by
  induction params with
  | nil => rfl
  | cons p params ih =>
    obtain ⟨hfirst, hrest⟩ := List.forall_mem_cons.mp h
    simp only [List.map_cons, Traced.entryParts, hfirst, ih hrest]

theorem termWith_rename {deref deref' : Slot → Run σ (Traced Value)} {t : Term Slot}
    (h : ∀ slot ∈ t.refs, deref' (π slot) = deref slot) :
    ({ e with set := set' } : Evaluation σ).termWith deref' (t.rename π) =
      e.termWith deref t := by
  induction t with
  | string text => rfl
  | number n => rfl
  | attr slot => exact h slot (List.mem_singleton_self slot)
  | coerce operand kind ih =>
    rw [Term.rename_coerce, termWith, termWith, ih h]
  | binary op lhs rhs ihl ihr =>
    obtain ⟨hl, hr⟩ := List.forall_mem_append.mp h
    rw [Term.rename_binary, termWith, termWith, ihl hl, ihr hr]
  | request key => rfl
  | rest url method params =>
    have hparams := entryParts_rename (List.forall_mem_map.mp h)
    rw [Term.rename_rest, termWith, termWith, Traced.traverse, Traced.traverse, hparams]
    rfl

/-- By induction on the room. The chain holds the renamed slots, so that it holds a renamed slot
exactly if it held the slot itself. -/
theorem attrAt_rename (h : RuleSet.Renamed π e.set set') (room : Nat) (chain : List Slot)
    (slot : Slot) (hchain : ∀ slot ∈ chain, slot < e.set.attributes.length)
    (hslot : slot < e.set.attributes.length) :
    ({ e with set := set' } : Evaluation σ).attrAt room (chain.map π) (π slot) =
      e.attrAt room chain slot := by
  induction room using Nat.strongRecOn generalizing chain slot with
  | ind room ih =>
    have ha : e.set.attributes[slot]? = some e.set.attributes[slot] :=
      List.getElem?_eq_getElem hslot
    have ha' := h.kept slot _ ha
    have hcontains : (chain.map π).contains (π slot) = chain.contains slot := by
      rw [Bool.eq_iff_iff, List.contains_iff_mem, List.contains_iff_mem]
      exact h.mem_map_iff hchain hslot
    unfold attrAt
    rw [ha, ha', hcontains]
    dsimp only
    split
    · rfl
    · cases room with
      | zero => rfl
      | succ room =>
        have hslots : ∀ next ∈ slot :: chain, next < e.set.attributes.length :=
          List.forall_mem_cons.mpr ⟨hslot, hchain⟩
        have hvalue : ∀ next ∈ (e.set.attributes[slot]).value.refs,
            ({ e with set := set' } : Evaluation σ).attrAt room ((slot :: chain).map π) (π next) =
              e.attrAt room (slot :: chain) next := by
          intro next hnext
          have hlt := h.lt_of_value ha next hnext
          exact ih room (Nat.lt_succ_self room) (slot :: chain) next hslots hlt
        have hterm : ({ e with set := set' } : Evaluation σ).termWith _ _ = e.termWith _ _ :=
          termWith_rename hvalue
        show (do
          let x ← termWith _ _ ((e.set.attributes[slot]).value.rename π)
          pure (x.map id _)) = _
        rw [List.map_cons] at hterm
        rw [hterm]
        rfl

theorem term_rename (h : RuleSet.Renamed π e.set set') {t : Term Slot}
    (ht : ∀ slot ∈ t.refs, slot < e.set.attributes.length) :
    ({ e with set := set' } : Evaluation σ).term (t.rename π) = e.term t := by
  apply termWith_rename
  intro slot hslot
  exact attrAt_rename h e.depthLimit [] slot (by simp) (ht slot hslot)

theorem condition_rename (h : RuleSet.Renamed π e.set set') {c : Condition Slot}
    (hc : ∀ slot ∈ c.refs, slot < e.set.attributes.length) :
    ({ e with set := set' } : Evaluation σ).condition (c.rename π) = e.condition c := by
  induction c with
  | not inner ih =>
    rw [Condition.rename_not, condition, condition, ih hc]
  | and lhs rhs ihl ihr | or lhs rhs ihl ihr =>
    obtain ⟨hl, hr⟩ := List.forall_mem_append.mp hc
    simp only [Condition.rename_and, Condition.rename_or, condition, ihl hl, ihr hr]
  | equal lhs rhs | greater lhs rhs =>
    obtain ⟨hl, hr⟩ := List.forall_mem_append.mp hc
    simp only [Condition.rename_equal, Condition.rename_greater, condition, term_rename h hl,
      term_rename h hr]

mutual

theorem rule_rename (h : RuleSet.Renamed π e.set set') (r : Rule Slot)
    (hr : ∀ slot ∈ r.refs, slot < e.set.attributes.length) :
    ({ e with set := set' } : Evaluation σ).rule (r.rename π) = e.rule r := by
  cases r with
  | always decision | never => rfl
  | when condition decision =>
    rw [Rule.rename_when, rule, rule, condition_rename h hr]
  | branch condition onTrue onFalse =>
    obtain ⟨hr, hfalse⟩ := List.forall_mem_append.mp hr
    obtain ⟨hcondition, htrue⟩ := List.forall_mem_append.mp hr
    rw [Rule.rename_branch, rule, rule, condition_rename h hcondition, rule_rename h onTrue htrue,
      rule_rename h onFalse hfalse]
  | majority decision members | all decision members | any decision members | oneOf members =>
    simp only [Rule.rename_majority, Rule.rename_all, Rule.rename_any, Rule.rename_oneOf, rule,
      rules_rename h members hr]

theorem rules_rename (h : RuleSet.Renamed π e.set set') (rs : List (Rule Slot))
    (hrs : ∀ slot ∈ Rule.memberRefs rs, slot < e.set.attributes.length) :
    ({ e with set := set' } : Evaluation σ).rules (rs.map (·.rename π)) = e.rules rs := by
  cases rs with
  | nil => rfl
  | cons r rs =>
    obtain ⟨hr, hrs⟩ := List.forall_mem_append.mp hrs
    rw [List.map_cons, rules, rules, rule_rename h r hr, rules_rename h rs hrs]

end

end Evaluation

/-! ## Linking in another order -/

namespace RuleSet

variable {set set' : RuleSet String} {linked : RuleSet Slot}

/-- Attributes are linked one by one. -/
theorem linkAttributes_eq_ok_iff {as : List (Attribute String)} {bs : List (Attribute Slot)} :
    set.linkAttributes as = .ok bs ↔
      List.Forall₂ (fun a b => a.mapRefs (set.find (.attribute a.name)) = .ok b) as bs := by
  induction as generalizing bs with
  | nil =>
    constructor
    · intro h
      cases h
      exact .nil
    · intro h
      cases h
      rfl
  | cons a as ih =>
    constructor
    · intro h
      obtain ⟨b, hb, h⟩ := bind_ok_iff.mp h
      obtain ⟨bs, hbs, h⟩ := bind_ok_iff.mp h
      cases h
      exact .cons hb (ih.mp hbs)
    · intro h
      cases h with
      | cons hb hbs =>
        rw [linkAttributes, hb, ok_bind, ih.mpr hbs]
        rfl

theorem linkRules_renamed {π : Slot → Slot}
    (h : ∀ site name slot, set.find site name = .ok slot → set'.find site name = .ok (π slot))
    {number : Nat} {rules : List (Rule String)} {rs : List (Rule Slot)}
    (hr : set.linkRules number rules = .ok rs) :
    set'.linkRules number rules = .ok (rs.map (·.rename π)) := by
  induction rules generalizing number rs with
  | nil =>
    cases hr
    rfl
  | cons rule rules ih =>
    obtain ⟨r, hrule, hr⟩ := bind_ok_iff.mp hr
    obtain ⟨rs, hrs, hr⟩ := bind_ok_iff.mp hr
    cases hr
    have hrenamed := Rule.mapRefs_renamed (h (.rule number)) rule hrule
    rw [linkRules, hrenamed, ok_bind, ih hrs]
    rfl

theorem getElem?_names {slot : Slot} (h : slot < linked.attributes.length) :
    linked.names[slot]? = some (linked.nameAt slot) := by
  simp [names, nameAt, h]

/-- The slot that an attribute of a linked rule set has in another one, by its name. -/
def slotIn (set' : RuleSet String) (linked : RuleSet Slot) (slot : Slot) : Slot :=
  (set'.slot? (linked.nameAt slot)).getD 0

section Slots

variable (hperm : linked.names.Perm set'.names) (hnodup : set'.names.Nodup)

include hperm hnodup

theorem getElem?_slotIn {slot : Slot} {name : String} (h : linked.names[slot]? = some name) :
    set'.names[slotIn set' linked slot]? = some name := by
  have hmem : name ∈ set'.names := hperm.mem_iff.mp (List.mem_of_getElem? h)
  obtain ⟨next, hnext⟩ := List.mem_iff_getElem?.mp hmem
  have hlt : slot < linked.attributes.length := by
    have hnames := (List.getElem?_eq_some_iff.mp h).1
    simpa [names] using hnames
  rw [getElem?_names hlt] at h
  cases h
  rw [slotIn, (slot_eq_some_iff hnodup).mpr hnext]
  exact hnext

theorem find_slotIn (hnames : linked.names = set.names) (site : Site) (name : String) (slot : Slot)
    (h : set.find site name = .ok slot) :
    set'.find site name = .ok (slotIn set' linked slot) := by
  have hname : linked.names[slot]? = some name := by
    rw [hnames]
    exact name_of_find h
  have hslot := getElem?_slotIn hperm hnodup hname
  rw [find, (slot_eq_some_iff hnodup).mpr hslot]

/-- Attributes with names of their own have slots of their own, in any order. -/
theorem slotIn_apart {slot next : Slot} (hslot : slot < linked.attributes.length)
    (hnext : next < linked.attributes.length)
    (h : slotIn set' linked slot = slotIn set' linked next) : slot = next := by
  have hname := getElem?_slotIn hperm hnodup (getElem?_names hslot)
  have hname' := getElem?_slotIn hperm hnodup (getElem?_names hnext)
  rw [h, hname'] at hname
  have hlt : slot < linked.names.length := by simpa [names] using hslot
  have hdistinct : linked.names.Nodup := hperm.nodup_iff.mpr hnodup
  apply (List.getElem?_inj hlt hdistinct).mp
  rw [getElem?_names hslot, getElem?_names hnext, hname]

/-- Where an attribute stands that has the name of a linked one. -/
theorem slotIn_eq {slot next : Slot} {a b : Attribute Slot} {as : List (Attribute Slot)}
    (hnames : as.map (·.name) = set'.names) (ha : linked.attributes[slot]? = some a)
    (hb : as[next]? = some b) (hname : b.name = a.name) : slotIn set' linked slot = next := by
  have hfirst : linked.names[slot]? = some a.name := by
    rw [names, List.getElem?_map, ha]
    rfl
  have hlast : set'.names[next]? = some a.name := by
    rw [← hnames, List.getElem?_map, hb, ← hname]
    rfl
  have hslot := getElem?_slotIn hperm hnodup hfirst
  have hlt : slotIn set' linked slot < set'.names.length := (List.getElem?_eq_some_iff.mp hslot).1
  apply (List.getElem?_inj hlt hnodup).mp
  rw [hslot, hlast]

end Slots

/-- Rule sets by name that differ in the order of their attributes are linked alike, up to the slots
that the attributes have. -/
theorem exists_link_reordered (hperm : set.attributes.Perm set'.attributes)
    (hrules : set'.rules = set.rules) (h : set.link = .ok linked) :
    ∃ linked', set'.link = .ok linked' ∧
      linked'.rules = linked.rules.map (·.rename (slotIn set' linked)) ∧
      Renamed (slotIn set' linked) linked linked' := by
  obtain ⟨-, ha, hr⟩ := link_eq_ok h
  have hscoped := wellScoped_of_link h
  have hnames : linked.names = set.names := names_of_link h
  have hperm' : linked.names.Perm set'.names := by
    rw [hnames]
    exact hperm.map _
  have hnodup : set'.names.Nodup := hperm'.nodup_iff.mp hscoped.distinct
  have hfind := find_slotIn hperm' hnodup hnames
  -- The linked attributes in the other order, before they are given the slots that they have there.
  obtain ⟨as, has, hsame⟩ := List.perm_comp_forall₂ hperm.symm (linkAttributes_eq_ok_iff.mp ha)
  have hattributes : set'.linkAttributes set'.attributes =
      .ok (as.map (·.rename (slotIn set' linked))) := by
    rw [linkAttributes_eq_ok_iff, List.forall₂_map_right_iff]
    refine has.imp fun a b hb => ?_
    obtain ⟨value, hvalue, hb⟩ := bind_ok_iff.mp hb
    cases hb
    rw [Attribute.mapRefs, Term.mapRefs_renamed (hfind _) hvalue]
    rfl
  have hlinked := linkRules_renamed hfind hr
  have hfirst : firstRepeated [] (set'.attributes.map (·.name)) = none :=
    (firstRepeated_eq_none_iff [] set'.names).mpr ⟨hnodup, by simp⟩
  refine ⟨⟨as.map (·.rename (slotIn set' linked)), _⟩, ?_, rfl, ?_, ?_, hscoped.inRange⟩
  · rw [← hrules] at hlinked
    rw [link, hfirst]
    dsimp only
    rw [hattributes, ok_bind, hlinked]
    rfl
  · intro slot b hb
    have hmem : b ∈ as := hsame.mem_iff.mpr (List.mem_of_getElem? hb)
    obtain ⟨next, hnext⟩ := List.mem_iff_getElem?.mp hmem
    have hrenamed : (as.map (·.rename (slotIn set' linked)))[next]? =
        some (b.rename (slotIn set' linked)) := by
      rw [List.getElem?_map, hnext]
      rfl
    have hslot := slotIn_eq hperm' hnodup (names_of_linkAttributes hattributes) hb hrenamed rfl
    rw [hslot]
    exact hrenamed
  · exact fun slot hslot next hnext heq => slotIn_apart hperm' hnodup hslot hnext heq

end RuleSet

namespace Evaluation

/-- The order in which attributes are defined does not matter. Rule sets that differ in nothing else
both have a linked form or both have none, and the linked forms come to the same decisions, faults
and explanations by the same calls, on every request and from every session. -/
theorem decisions_of_reordered (set set' : RuleSet String)
    (hperm : set.attributes.Perm set'.attributes) (hrules : set'.rules = set.rules) :
    ((∃ linked, set.link = .ok linked) ↔ ∃ linked, set'.link = .ok linked) ∧
    ∀ linked linked', set.link = .ok linked → set'.link = .ok linked' →
      ∀ (σ : Type) (request : Request) (service : Service σ) (limit : Nat) (s : Session σ),
        (Evaluation.mk linked' request service limit).decisions.run s =
          (Evaluation.mk linked request service limit).decisions.run s := by
  refine ⟨⟨?_, ?_⟩, ?_⟩
  · rintro ⟨linked, h⟩
    obtain ⟨linked', h', -⟩ := RuleSet.exists_link_reordered hperm hrules h
    exact ⟨linked', h'⟩
  · rintro ⟨linked, h⟩
    obtain ⟨linked', h', -⟩ := RuleSet.exists_link_reordered hperm.symm hrules.symm h
    exact ⟨linked', h'⟩
  · intro linked linked' h h' σ request service limit s
    obtain ⟨other, hother, hmapped, hrenamed⟩ := RuleSet.exists_link_reordered hperm hrules h
    cases hother.symm.trans h'
    have hrefs : ∀ slot ∈ Rule.memberRefs linked.rules, slot < linked.attributes.length := by
      intro slot hslot
      rw [Rule.memberRefs_eq_terms] at hslot
      obtain ⟨t, ht, hslot⟩ := List.mem_flatMap.mp hslot
      exact (RuleSet.wellScoped_of_link h).lt_of_terms t ht slot hslot
    have hrules := rules_rename (e := ⟨linked, request, service, limit⟩) hrenamed linked.rules hrefs
    rw [decisions, decisions, hmapped, hrules]

/-- A bill that is looked up by an item, and an attribute that refers to itself. -/
def billParts : List (Attribute String) :=
  [⟨"total", .binary .plus (.attr "price") (.attr "price")⟩,
    ⟨"price", .coerce (.rest "http://prices" .get [("item", "item")]) .number⟩,
    ⟨"item", .request "item"⟩, ⟨"loop", .binary .plus (.attr "item") (.attr "loop")⟩]

def bill (parts : List (Attribute String)) : RuleSet String where
  attributes := parts
  rules := [.when (.greater (.attr "total") (.number .zero)) .deny,
    .when (.equal (.attr "loop") (.attr "total")) .permit]

theorem bill_reordered :
    billParts.Perm billParts.reverse ∧ (bill billParts.reverse).rules = (bill billParts).rules ∧
    ∃ linked linked', (bill billParts).link = .ok linked ∧
      (bill billParts.reverse).link = .ok linked' ∧ linked.attributes ≠ linked'.attributes ∧
      ∀ request (s : Session Service.Script.History),
        let service := Service.Script.service ⟨[("http://prices", [.ok "20"])], none⟩
        (Evaluation.mk linked' request service 3).decisions.run s =
          (Evaluation.mk linked request service 3).decisions.run s := by
  have hperm : billParts.Perm billParts.reverse := billParts.reverse_perm.symm
  have h := decisions_of_reordered (bill billParts) (bill billParts.reverse) hperm rfl
  refine ⟨hperm, rfl, _, _, rfl, rfl, by decide, fun request s => ?_⟩
  exact h.2 _ _ rfl rfl _ request _ 3 s

end Evaluation

end Policy
