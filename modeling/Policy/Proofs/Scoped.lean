import Policy.Proofs.Linking

namespace Policy

variable {ε α β : Type} {f : α → Except ε β}

/-! ## References that were found

Each reference of what `f` was passed through is one that `f` gave. -/

theorem Term.exists_of_mem_mapParams {params : List (String × α)} {linked : List (String × β)}
    (h : mapParams f params = .ok linked) : ∀ p ∈ linked, ∃ a, f a = .ok p.2 := by
  induction params generalizing linked with
  | nil =>
    cases h
    simp
  | cons p params ih =>
    obtain ⟨name, a⟩ := p
    obtain ⟨b, hb, h⟩ := bind_ok_iff.mp h
    obtain ⟨more, hm, h⟩ := bind_ok_iff.mp h
    cases h
    exact List.forall_mem_cons.mpr ⟨⟨a, hb⟩, ih hm⟩

theorem Term.exists_of_mem_mapRefs {t : Term α} {u : Term β} (h : t.mapRefs f = .ok u) :
    ∀ b ∈ u.refs, ∃ a, f a = .ok b := by
  induction t generalizing u with
  | string text | number n | request key =>
    cases h
    simp [refs]
  | attr a =>
    obtain ⟨b, hb, h⟩ := bind_ok_iff.mp h
    cases h
    simpa [refs] using ⟨a, hb⟩
  | coerce operand kind ih =>
    obtain ⟨v, hv, h⟩ := bind_ok_iff.mp h
    cases h
    have hrefs := ih hv
    exact hrefs
  | binary op lhs rhs ihl ihr =>
    obtain ⟨l, hl, h⟩ := bind_ok_iff.mp h
    obtain ⟨r, hr, h⟩ := bind_ok_iff.mp h
    cases h
    exact List.forall_mem_append.mpr ⟨ihl hl, ihr hr⟩
  | rest url method params =>
    obtain ⟨linked, hl, h⟩ := bind_ok_iff.mp h
    cases h
    exact List.forall_mem_map.mpr (exists_of_mem_mapParams hl)

theorem Condition.exists_of_mem_mapRefs {c : Condition α} {d : Condition β}
    (h : c.mapRefs f = .ok d) : ∀ b ∈ d.refs, ∃ a, f a = .ok b := by
  induction c generalizing d with
  | not inner ih =>
    obtain ⟨i, hi, h⟩ := bind_ok_iff.mp h
    cases h
    have hrefs := ih hi
    exact hrefs
  | and lhs rhs ihl ihr | or lhs rhs ihl ihr =>
    obtain ⟨l, hl, h⟩ := bind_ok_iff.mp h
    obtain ⟨r, hr, h⟩ := bind_ok_iff.mp h
    cases h
    exact List.forall_mem_append.mpr ⟨ihl hl, ihr hr⟩
  | equal lhs rhs | greater lhs rhs =>
    obtain ⟨l, hl, h⟩ := bind_ok_iff.mp h
    obtain ⟨r, hr, h⟩ := bind_ok_iff.mp h
    cases h
    exact List.forall_mem_append.mpr
      ⟨Term.exists_of_mem_mapRefs hl, Term.exists_of_mem_mapRefs hr⟩

mutual

theorem Rule.exists_of_mem_mapRefs (r : Rule α) {s : Rule β} (h : r.mapRefs f = .ok s) :
    ∀ b ∈ s.refs, ∃ a, f a = .ok b := by
  cases r with
  | always decision | never =>
    cases h
    simp [refs]
  | when condition decision =>
    obtain ⟨c, hc, h⟩ := bind_ok_iff.mp h
    cases h
    exact Condition.exists_of_mem_mapRefs hc
  | branch condition onTrue onFalse =>
    obtain ⟨c, hc, h⟩ := bind_ok_iff.mp h
    obtain ⟨t, ht, h⟩ := bind_ok_iff.mp h
    obtain ⟨e, he, h⟩ := bind_ok_iff.mp h
    cases h
    refine List.forall_mem_append.mpr ⟨List.forall_mem_append.mpr ⟨?_, ?_⟩, ?_⟩
    · exact Condition.exists_of_mem_mapRefs hc
    · exact exists_of_mem_mapRefs onTrue ht
    · exact exists_of_mem_mapRefs onFalse he
  | majority decision members | all decision members | any decision members | oneOf members =>
    obtain ⟨ms, hm, h⟩ := bind_ok_iff.mp h
    cases h
    exact exists_of_mem_mapMembers members hm

theorem Rule.exists_of_mem_mapMembers (rs : List (Rule α)) {ss : List (Rule β)}
    (h : mapMembers f rs = .ok ss) : ∀ b ∈ memberRefs ss, ∃ a, f a = .ok b := by
  cases rs with
  | nil =>
    cases h
    simp [memberRefs]
  | cons r rs =>
    obtain ⟨s, hs, h⟩ := bind_ok_iff.mp h
    obtain ⟨ss, hss, h⟩ := bind_ok_iff.mp h
    cases h
    exact List.forall_mem_append.mpr ⟨exists_of_mem_mapRefs r hs, exists_of_mem_mapMembers rs hss⟩

end

/-! ## Renaming forth

References that were passed through `g` are found again by an `f` that undoes `g` on them. -/

section Forth

variable {g : β → α}

theorem Term.mapParams_forth {params : List (String × β)} (h : ∀ p ∈ params, f (g p.2) = .ok p.2) :
    mapParams f (mapParams (fun b => (pure (g b) : Id α)) params).run = .ok params := by
  induction params with
  | nil => rfl
  | cons p params ih =>
    obtain ⟨name, b⟩ := p
    obtain ⟨hb, hp⟩ := List.forall_mem_cons.mp h
    simp only [mapParams, Id.run_bind, Id.run_pure, hb, ok_bind, ih hp]
    rfl

theorem Term.mapRefs_forth {u : Term β} (h : ∀ b ∈ u.refs, f (g b) = .ok b) :
    (u.mapRefs fun b => (pure (g b) : Id α)).run.mapRefs f = .ok u := by
  induction u with
  | string text | number n | request key => rfl
  | attr b =>
    have hb := h b (List.mem_singleton_self b)
    simp only [mapRefs, Id.run_bind, Id.run_pure, hb, ok_bind]
    rfl
  | coerce operand kind ih =>
    simp only [mapRefs, Id.run_bind, Id.run_pure, ih h, ok_bind]
    rfl
  | binary op lhs rhs ihl ihr =>
    obtain ⟨hl, hr⟩ := List.forall_mem_append.mp h
    simp only [mapRefs, Id.run_bind, Id.run_pure, ihl hl, ihr hr, ok_bind]
    rfl
  | rest url method params =>
    have hparams := mapParams_forth (f := f) (g := g) (List.forall_mem_map.mp h)
    simp only [mapRefs, Id.run_bind, Id.run_pure, hparams, ok_bind]
    rfl

theorem Condition.mapRefs_forth {d : Condition β} (h : ∀ b ∈ d.refs, f (g b) = .ok b) :
    (d.mapRefs fun b => (pure (g b) : Id α)).run.mapRefs f = .ok d := by
  induction d with
  | not inner ih =>
    simp only [mapRefs, Id.run_bind, Id.run_pure, ih h, ok_bind]
    rfl
  | and lhs rhs ihl ihr | or lhs rhs ihl ihr =>
    obtain ⟨hl, hr⟩ := List.forall_mem_append.mp h
    simp only [mapRefs, Id.run_bind, Id.run_pure, ihl hl, ihr hr, ok_bind]
    rfl
  | equal lhs rhs | greater lhs rhs =>
    obtain ⟨hl, hr⟩ := List.forall_mem_append.mp h
    simp only [mapRefs, Id.run_bind, Id.run_pure, Term.mapRefs_forth hl, Term.mapRefs_forth hr,
      ok_bind]
    rfl

mutual

theorem Rule.mapRefs_forth (s : Rule β) (h : ∀ b ∈ s.refs, f (g b) = .ok b) :
    (s.mapRefs fun b => (pure (g b) : Id α)).run.mapRefs f = .ok s := by
  cases s with
  | always decision | never => rfl
  | when condition decision =>
    simp only [mapRefs, Id.run_bind, Id.run_pure, Condition.mapRefs_forth h, ok_bind]
    rfl
  | branch condition onTrue onFalse =>
    obtain ⟨h, hf⟩ := List.forall_mem_append.mp h
    obtain ⟨hc, ht⟩ := List.forall_mem_append.mp h
    simp only [mapRefs, Id.run_bind, Id.run_pure, Condition.mapRefs_forth hc,
      mapRefs_forth onTrue ht, mapRefs_forth onFalse hf, ok_bind]
    rfl
  | majority decision members | all decision members | any decision members | oneOf members =>
    simp only [mapRefs, Id.run_bind, Id.run_pure, mapMembers_forth members h, ok_bind]
    rfl

theorem Rule.mapMembers_forth (ss : List (Rule β)) (h : ∀ b ∈ memberRefs ss, f (g b) = .ok b) :
    mapMembers f (mapMembers (fun b => (pure (g b) : Id α)) ss).run = .ok ss := by
  cases ss with
  | nil => rfl
  | cons s ss =>
    obtain ⟨hs, hss⟩ := List.forall_mem_append.mp h
    simp only [mapMembers, Id.run_bind, Id.run_pure, mapRefs_forth s hs, mapMembers_forth ss hss,
      ok_bind]
    rfl

end

end Forth

namespace RuleSet

/-! ## Names and slots -/

def names {α : Type} (set : RuleSet α) : List String := set.attributes.map (·.name)

/-- Attributes have names of their own, and every slot that is referred to holds one of them. -/
structure WellScoped (set : RuleSet Slot) : Prop where
  distinct : set.names.Nodup
  inRange : ∀ slot ∈ set.refs, slot < set.attributes.length

theorem firstRepeated_eq_none_iff (seen names : List String) :
    firstRepeated seen names = none ↔ names.Nodup ∧ ∀ name ∈ names, name ∉ seen := by
  induction names generalizing seen with
  | nil => simp [firstRepeated]
  | cons name names ih =>
    rw [firstRepeated]
    by_cases hseen : name ∈ seen
    · simp [hseen]
    · have hcontains : seen.contains name = false := by simpa using hseen
      rw [hcontains, if_neg Bool.false_ne_true, ih, List.nodup_cons, List.forall_mem_cons]
      constructor
      · rintro ⟨hnodup, hfresh⟩
        refine ⟨⟨fun hmem => hfresh name hmem List.mem_cons_self, hnodup⟩, hseen, ?_⟩
        intro other hother hin
        exact hfresh other hother (List.mem_cons_of_mem _ hin)
      · rintro ⟨⟨hname, hnodup⟩, -, hfresh⟩
        refine ⟨hnodup, fun other hother hin => ?_⟩
        rcases List.mem_cons.mp hin with rfl | hin
        · exact hname hother
        · exact hfresh other hother hin

/-- Where names are distinct, the slot of a name is the place at which the name stands. -/
theorem slot_eq_some_iff {α : Type} {set : RuleSet α} (h : set.names.Nodup) {name : String}
    {slot : Slot} : set.slot? name = some slot ↔ set.names[slot]? = some name := by
  have hname : ∀ i (hi : i < set.attributes.length),
      set.names[i]? = some set.attributes[i].name := by
    intro i hi
    simp [names, hi]
  constructor
  · intro hs
    obtain ⟨hlt, hp, -⟩ := List.findIdx?_eq_some_iff_getElem.mp hs
    rw [hname slot hlt, of_decide_eq_true hp]
  · intro hs
    have hlt : slot < set.attributes.length := by
      have := (List.getElem?_eq_some_iff.mp hs).1
      simpa [names] using this
    refine List.findIdx?_eq_some_iff_getElem.mpr ⟨hlt, ?_, ?_⟩
    · rw [hname slot hlt] at hs
      exact decide_eq_true (Option.some.inj hs)
    · intro j hj hp
      have hjlt : j < set.attributes.length := Nat.lt_trans hj hlt
      have hsame : set.names[j]? = set.names[slot]? := by
        rw [hname j hjlt, of_decide_eq_true hp, hs]
      have hin : j < set.names.length := by simpa [names] using hjlt
      exact absurd ((List.getElem?_inj hin h).mp hsame) (Nat.ne_of_lt hj)

theorem byName_attributes (set : RuleSet Slot) :
    set.byName.attributes = set.attributes.map fun a =>
      (a.mapRefs fun slot => (pure (set.nameAt slot) : Id String)).run := by
  simp only [byName, mapRefs, Id.run_bind, Id.run_pure, List.idRun_mapM]

theorem byName_rules (set : RuleSet Slot) :
    set.byName.rules = set.rules.map fun r =>
      (r.mapRefs fun slot => (pure (set.nameAt slot) : Id String)).run := by
  simp only [byName, mapRefs, Id.run_bind, Id.run_pure, List.idRun_mapM]

theorem names_byName (set : RuleSet Slot) : set.byName.names = set.names := by
  rw [names, byName_attributes, List.map_map]
  rfl

theorem find_nameAt {set : RuleSet Slot} (h : set.names.Nodup) {slot : Slot}
    (hslot : slot < set.attributes.length) (site : Site) :
    set.byName.find site (set.nameAt slot) = .ok slot := by
  have hname : set.byName.names[slot]? = some (set.nameAt slot) := by
    rw [names_byName]
    simp [names, nameAt, hslot]
  have hs := (slot_eq_some_iff (by rw [names_byName]; exact h)).mpr hname
  simp only [find, hs]

/-! ## Linked rule sets are well scoped -/

theorem lt_of_find {set : RuleSet String} {site : Site} {name : String} {slot : Slot}
    (h : set.find site name = .ok slot) : slot < set.attributes.length := by
  have hname := (List.getElem?_eq_some_iff.mp (name_of_find h)).1
  simpa using hname

theorem lt_of_linkAttributes {set : RuleSet String} {as : List (Attribute String)}
    {linked : List (Attribute Slot)} (h : set.linkAttributes as = .ok linked) :
    ∀ slot ∈ linked.flatMap (·.value.refs), slot < set.attributes.length := by
  induction as generalizing linked with
  | nil =>
    cases h
    simp
  | cons a as ih =>
    obtain ⟨b, hb, h⟩ := bind_ok_iff.mp h
    obtain ⟨bs, hbs, h⟩ := bind_ok_iff.mp h
    obtain ⟨value, hv, hb⟩ := bind_ok_iff.mp hb
    cases h
    cases hb
    refine List.forall_mem_append.mpr ⟨fun slot hslot => ?_, ih hbs⟩
    obtain ⟨name, hname⟩ := Term.exists_of_mem_mapRefs hv slot hslot
    exact lt_of_find hname

theorem lt_of_linkRules {set : RuleSet String} {number : Nat} {rules : List (Rule String)}
    {linked : List (Rule Slot)} (h : set.linkRules number rules = .ok linked) :
    ∀ slot ∈ linked.flatMap (·.refs), slot < set.attributes.length := by
  induction rules generalizing number linked with
  | nil =>
    cases h
    simp
  | cons r rs ih =>
    obtain ⟨s, hs, h⟩ := bind_ok_iff.mp h
    obtain ⟨ss, hss, h⟩ := bind_ok_iff.mp h
    cases h
    refine List.forall_mem_append.mpr ⟨fun slot hslot => ?_, ih hss⟩
    obtain ⟨name, hname⟩ := Rule.exists_of_mem_mapRefs r hs slot hslot
    exact lt_of_find hname

theorem names_of_link {set : RuleSet String} {linked : RuleSet Slot}
    (h : set.link = .ok linked) : linked.names = set.names :=
  names_of_linkAttributes (link_eq_ok h).2.1

theorem wellScoped_of_link {set : RuleSet String} {linked : RuleSet Slot}
    (h : set.link = .ok linked) : linked.WellScoped := by
  obtain ⟨hfirst, ha, hr⟩ := link_eq_ok h
  have hnames := names_of_link h
  have hlength : linked.attributes.length = set.attributes.length := by
    simpa [names] using congrArg List.length hnames
  constructor
  · rw [hnames]
    exact ((firstRepeated_eq_none_iff [] set.names).mp hfirst).1
  · rw [hlength]
    exact List.forall_mem_append.mpr ⟨lt_of_linkAttributes ha, lt_of_linkRules hr⟩

/-! ## Well scoped rule sets are linked -/

section Forth

variable {set : RuleSet String} {back : Slot → String}

theorem linkAttributes_forth {as : List (Attribute Slot)}
    (h : ∀ slot ∈ as.flatMap (·.value.refs), ∀ site, set.find site (back slot) = .ok slot) :
    set.linkAttributes
        (as.map fun a => (a.mapRefs fun slot => (pure (back slot) : Id String)).run) =
      .ok as := by
  induction as with
  | nil => rfl
  | cons a as ih =>
    obtain ⟨ha, has⟩ := List.forall_mem_append.mp h
    have hvalue := Term.mapRefs_forth (f := set.find (.attribute a.name)) (g := back)
      fun slot hslot => ha slot hslot _
    have hattribute :
        (a.mapRefs fun slot => (pure (back slot) : Id String)).run.mapRefs
          (set.find (.attribute a.name)) = .ok a := by
      simp only [Attribute.mapRefs, Id.run_bind, Id.run_pure, hvalue, ok_bind]
      rfl
    rw [List.map_cons, linkAttributes]
    show (Attribute.mapRefs (set.find (.attribute a.name)) _ >>= _) = _
    rw [hattribute, ok_bind, ih has]
    rfl

theorem linkRules_forth {number : Nat} {rules : List (Rule Slot)}
    (h : ∀ slot ∈ rules.flatMap (·.refs), ∀ site, set.find site (back slot) = .ok slot) :
    set.linkRules number
        (rules.map fun r => (r.mapRefs fun slot => (pure (back slot) : Id String)).run) =
      .ok rules := by
  induction rules generalizing number with
  | nil => rfl
  | cons r rs ih =>
    obtain ⟨hr, hrs⟩ := List.forall_mem_append.mp h
    have hrule := Rule.mapRefs_forth (f := set.find (.rule number)) (g := back) r
      fun slot hslot => hr slot hslot _
    simp only [List.map_cons, linkRules, hrule, ok_bind, ih hrs]
    rfl

end Forth

theorem link_byName {set : RuleSet Slot} (h : set.WellScoped) : set.byName.link = .ok set := by
  have hfirst : firstRepeated [] (set.byName.attributes.map (·.name)) = none := by
    refine (firstRepeated_eq_none_iff _ _).mpr ⟨?_, by simp⟩
    show set.byName.names.Nodup
    rw [names_byName]
    exact h.distinct
  have hfind : ∀ slot ∈ set.refs, ∀ site,
      set.byName.find site (set.nameAt slot) = .ok slot :=
    fun slot hslot => find_nameAt h.distinct (h.inRange slot hslot)
  obtain ⟨hattributes, hrules⟩ := List.forall_mem_append.mp hfind
  have ha : set.byName.linkAttributes set.byName.attributes = .ok set.attributes := by
    rw [byName_attributes]
    exact linkAttributes_forth hattributes
  have hr : set.byName.linkRules 1 set.byName.rules = .ok set.rules := by
    rw [byName_rules]
    exact linkRules_forth hrules
  simp only [link, hfirst, ha, hr, ok_bind]
  rfl

/-- Linking goes one to one between rule sets by name and those that are well scoped. -/
theorem link_eq_ok_iff {set : RuleSet String} {linked : RuleSet Slot} :
    set.link = .ok linked ↔ linked.WellScoped ∧ linked.byName = set := by
  constructor
  · intro h
    exact ⟨wellScoped_of_link h, byName_of_link h⟩
  · rintro ⟨h, rfl⟩
    exact link_byName h

end RuleSet

end Policy
