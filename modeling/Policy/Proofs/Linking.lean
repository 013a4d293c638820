import Policy.Linking
import Policy.Proofs.Outcome

namespace Policy

variable {ε α β : Type} {f : α → Except ε β} {g : β → α}

/-! ## Renaming back

References that were passed through `f` are turned back by a `g` that undoes `f`. -/

theorem Term.mapParams_back (hfg : ∀ a b, f a = .ok b → g b = a) {params : List (String × α)}
    {linked : List (String × β)} (h : mapParams f params = .ok linked) :
    (mapParams (fun b => (pure (g b) : Id α)) linked).run = params := by
  induction params generalizing linked with
  | nil =>
    cases h
    rfl
  | cons p params ih =>
    obtain ⟨name, a⟩ := p
    obtain ⟨b, hb, h⟩ := bind_ok_iff.mp h
    obtain ⟨more, hm, h⟩ := bind_ok_iff.mp h
    cases h
    simp only [mapParams, Id.run_bind, Id.run_pure, ih hm, hfg a b hb]

theorem Term.mapRefs_back (hfg : ∀ a b, f a = .ok b → g b = a) {t : Term α} {u : Term β}
    (h : t.mapRefs f = .ok u) : (u.mapRefs fun b => (pure (g b) : Id α)).run = t := by
  induction t generalizing u with
  | string text | number n =>
    cases h
    rfl
  | attr a =>
    obtain ⟨b, hb, h⟩ := bind_ok_iff.mp h
    cases h
    simp only [mapRefs, Id.run_bind, Id.run_pure, hfg a b hb]
  | coerce operand kind ih =>
    obtain ⟨v, hv, h⟩ := bind_ok_iff.mp h
    cases h
    simp only [mapRefs, Id.run_bind, Id.run_pure, ih hv]
  | binary op lhs rhs ihl ihr =>
    obtain ⟨l, hl, h⟩ := bind_ok_iff.mp h
    obtain ⟨r, hr, h⟩ := bind_ok_iff.mp h
    cases h
    simp only [mapRefs, Id.run_bind, Id.run_pure, ihl hl, ihr hr]
  | request key =>
    cases h
    rfl
  | rest url method params =>
    obtain ⟨linked, hl, h⟩ := bind_ok_iff.mp h
    cases h
    simp only [mapRefs, Id.run_bind, Id.run_pure, mapParams_back hfg hl]

theorem Condition.mapRefs_back (hfg : ∀ a b, f a = .ok b → g b = a) {c : Condition α}
    {d : Condition β} (h : c.mapRefs f = .ok d) :
    (d.mapRefs fun b => (pure (g b) : Id α)).run = c := by
  induction c generalizing d with
  | not inner ih =>
    obtain ⟨i, hi, h⟩ := bind_ok_iff.mp h
    cases h
    simp only [mapRefs, Id.run_bind, Id.run_pure, ih hi]
  | and lhs rhs ihl ihr | or lhs rhs ihl ihr =>
    obtain ⟨l, hl, h⟩ := bind_ok_iff.mp h
    obtain ⟨r, hr, h⟩ := bind_ok_iff.mp h
    cases h
    simp only [mapRefs, Id.run_bind, Id.run_pure, ihl hl, ihr hr]
  | equal lhs rhs | greater lhs rhs =>
    obtain ⟨l, hl, h⟩ := bind_ok_iff.mp h
    obtain ⟨r, hr, h⟩ := bind_ok_iff.mp h
    cases h
    simp only [mapRefs, Id.run_bind, Id.run_pure, Term.mapRefs_back hfg hl,
      Term.mapRefs_back hfg hr]

mutual

theorem Rule.mapRefs_back (hfg : ∀ a b, f a = .ok b → g b = a) (r : Rule α) {s : Rule β}
    (h : r.mapRefs f = .ok s) : (s.mapRefs fun b => (pure (g b) : Id α)).run = r := by
  cases r with
  | always decision | never =>
    cases h
    rfl
  | when condition decision =>
    obtain ⟨c, hc, h⟩ := bind_ok_iff.mp h
    cases h
    simp only [mapRefs, Id.run_bind, Id.run_pure, Condition.mapRefs_back hfg hc]
  | branch condition onTrue onFalse =>
    obtain ⟨c, hc, h⟩ := bind_ok_iff.mp h
    obtain ⟨t, ht, h⟩ := bind_ok_iff.mp h
    obtain ⟨e, he, h⟩ := bind_ok_iff.mp h
    cases h
    simp only [mapRefs, Id.run_bind, Id.run_pure, Condition.mapRefs_back hfg hc,
      mapRefs_back hfg onTrue ht, mapRefs_back hfg onFalse he]
  | majority decision members | all decision members | any decision members | oneOf members =>
    obtain ⟨ms, hm, h⟩ := bind_ok_iff.mp h
    cases h
    simp only [mapRefs, Id.run_bind, Id.run_pure, mapMembers_back hfg members hm]

theorem Rule.mapMembers_back (hfg : ∀ a b, f a = .ok b → g b = a) (rs : List (Rule α))
    {ss : List (Rule β)} (h : mapMembers f rs = .ok ss) :
    (mapMembers (fun b => (pure (g b) : Id α)) ss).run = rs := by
  cases rs with
  | nil =>
    cases h
    rfl
  | cons r rs =>
    obtain ⟨s, hs, h⟩ := bind_ok_iff.mp h
    obtain ⟨ss, hss, h⟩ := bind_ok_iff.mp h
    cases h
    simp only [mapMembers, Id.run_bind, Id.run_pure, mapRefs_back hfg r hs,
      mapMembers_back hfg rs hss]

end

namespace RuleSet

/-! ## Linked rule sets -/

theorem name_of_find {set : RuleSet String} {site : Site} {name : String} {slot : Slot}
    (h : set.find site name = .ok slot) :
    (set.attributes.map (·.name))[slot]? = some name := by
  unfold find at h
  split at h
  · next found hs =>
    cases h
    obtain ⟨hlt, hname, -⟩ := List.findIdx?_eq_some_iff_getElem.mp hs
    simp only [List.getElem?_map, List.getElem?_eq_getElem hlt, Option.map_some]
    simpa using hname
  · cases h

theorem names_of_linkAttributes {set : RuleSet String} {as : List (Attribute String)}
    {linked : List (Attribute Slot)} (h : set.linkAttributes as = .ok linked) :
    linked.map (·.name) = as.map (·.name) := by
  induction as generalizing linked with
  | nil =>
    cases h
    rfl
  | cons a as ih =>
    obtain ⟨b, hb, h⟩ := bind_ok_iff.mp h
    obtain ⟨bs, hbs, h⟩ := bind_ok_iff.mp h
    obtain ⟨value, -, hb⟩ := bind_ok_iff.mp hb
    cases h
    cases hb
    simp only [List.map_cons, ih hbs]

section Back

variable {set : RuleSet String} {back : Slot → String}
  (hback : ∀ site name slot, set.find site name = .ok slot → back slot = name)

include hback

theorem linkAttributes_back {as : List (Attribute String)} {linked : List (Attribute Slot)}
    (h : set.linkAttributes as = .ok linked) :
    linked.map (fun a => (a.mapRefs fun slot => (pure (back slot) : Id String)).run) = as := by
  induction as generalizing linked with
  | nil =>
    cases h
    rfl
  | cons a as ih =>
    obtain ⟨b, hb, h⟩ := bind_ok_iff.mp h
    obtain ⟨bs, hbs, h⟩ := bind_ok_iff.mp h
    obtain ⟨value, hv, hb⟩ := bind_ok_iff.mp hb
    cases h
    cases hb
    have hvalue := Term.mapRefs_back (hback _) hv
    rw [List.map_cons, ih hbs]
    simp only [Attribute.mapRefs, Id.run_bind, Id.run_pure, hvalue]

theorem linkRules_back {number : Nat} {rules : List (Rule String)} {linked : List (Rule Slot)}
    (h : set.linkRules number rules = .ok linked) :
    linked.map (fun r => (r.mapRefs fun slot => (pure (back slot) : Id String)).run) = rules := by
  induction rules generalizing number linked with
  | nil =>
    cases h
    rfl
  | cons r rs ih =>
    obtain ⟨s, hs, h⟩ := bind_ok_iff.mp h
    obtain ⟨ss, hss, h⟩ := bind_ok_iff.mp h
    cases h
    simp only [List.map_cons, ih hss, Rule.mapRefs_back (hback _) r hs]

end Back

/-- The parts of a rule set that was linked. -/
theorem link_eq_ok {set : RuleSet String} {linked : RuleSet Slot} (h : set.link = .ok linked) :
    firstRepeated [] (set.attributes.map (·.name)) = none ∧
      set.linkAttributes set.attributes = .ok linked.attributes ∧
      set.linkRules 1 set.rules = .ok linked.rules := by
  unfold link at h
  split at h
  · cases h
  · next hfirst =>
    obtain ⟨attributes, ha, h⟩ := bind_ok_iff.mp h
    obtain ⟨rules, hr, h⟩ := bind_ok_iff.mp h
    cases h
    exact ⟨hfirst, ha, hr⟩

/-- Writing the slots of a linked rule set as names gives the rule set that was linked. -/
theorem byName_of_link {set : RuleSet String} {linked : RuleSet Slot}
    (h : set.link = .ok linked) : linked.byName = set := by
  obtain ⟨-, ha, hr⟩ := link_eq_ok h
  have hback : ∀ site name slot, set.find site name = .ok slot →
      linked.nameAt slot = name := by
    intro site name slot hf
    have hname := name_of_find hf
    rw [← names_of_linkAttributes ha, List.getElem?_map] at hname
    obtain ⟨a, hslot, rfl⟩ := Option.map_eq_some_iff.mp hname
    simp only [nameAt, hslot]
  apply RuleSet.ext
  · simpa only [byName, mapRefs, Id.run_bind, Id.run_pure, List.idRun_mapM] using
      linkAttributes_back hback ha
  · simpa only [byName, mapRefs, Id.run_bind, Id.run_pure, List.idRun_mapM] using
      linkRules_back hback hr

end RuleSet

end Policy
