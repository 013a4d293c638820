import Policy.Proofs.Scoped

namespace Policy

variable {ε α β : Type} {f : α → Except ε β}

/-! ## The first reference that is not found

Passing references through `f` fails with the first error of `f` in reading order, if there is
one. -/

section Steps

variable {γ : Type} {first : Except ε α} {second : Except ε β}

def error? : Except ε α → Option ε
  | .ok _ => none
  | .error e => some e

def Succeeds (first : Except ε α) : Prop := ∃ a, first = .ok a

theorem error?_eq_none_iff : error? first = none ↔ Succeeds first := by
  cases first with
  | error e => simp [error?, Succeeds]
  | ok a => simp [error?, Succeeds]

theorem error?_eq_some_iff {e : ε} : error? first = some e ↔ first = .error e := by
  cases first with
  | error e' => simp [error?]
  | ok a => simp [error?]

/-- The error of two steps, of which the second one fails alike behind whatever the first one
gives. -/
theorem error?_bind {next : α → Except ε β} {o : Option ε} (h : ∀ a, error? (next a) = o) :
    error? (first >>= next) = (error? first).or o := by
  cases first with
  | error e => rfl
  | ok a => rw [ok_bind, h, error?, Option.none_or]

theorem error?_map (g : α → β) : error? (do pure (g (← first))) = error? first := by
  have hlast (a : α) : error? (pure (g a) : Except ε β) = none := rfl
  rw [error?_bind hlast, Option.or_none]

theorem error?_both (g : α → β → γ) :
    error? (do
      let a ← first
      let b ← second
      pure (g a b)) = (error? first).or (error? second) :=
  error?_bind fun a => error?_map (g a)

end Steps

theorem Term.error?_mapParams (params : List (String × α)) :
    error? (mapParams f params) = (params.map Prod.snd).findSome? fun a => error? (f a) := by
  induction params with
  | nil => rfl
  | cons p params ih =>
    obtain ⟨name, a⟩ := p
    rw [mapParams, error?_both, ih, List.map_cons, List.findSome?_cons]
    cases error? (f a) with
    | none => rfl
    | some e => rfl

theorem Term.error?_mapRefs (t : Term α) :
    error? (t.mapRefs f) = t.refs.findSome? fun a => error? (f a) := by
  induction t with
  | string text | number n | request key => rfl
  | attr a => rw [mapRefs, error?_map, refs, List.findSome?_singleton]
  | coerce operand kind ih => rw [mapRefs, error?_map, ih, refs]
  | binary op lhs rhs ihl ihr =>
    rw [mapRefs, error?_both, ihl, ihr, refs, List.findSome?_append]
  | rest url method params => rw [mapRefs, error?_map, error?_mapParams, refs]

theorem Condition.error?_mapRefs (c : Condition α) :
    error? (c.mapRefs f) = c.refs.findSome? fun a => error? (f a) := by
  induction c with
  | not inner ih => rw [mapRefs, error?_map, ih, refs]
  | and lhs rhs ihl ihr | or lhs rhs ihl ihr =>
    rw [mapRefs, error?_both, ihl, ihr, refs, List.findSome?_append]
  | equal lhs rhs | greater lhs rhs =>
    rw [mapRefs, error?_both, Term.error?_mapRefs, Term.error?_mapRefs, refs,
      List.findSome?_append]

mutual

theorem Rule.error?_mapRefs (r : Rule α) :
    error? (r.mapRefs f) = r.refs.findSome? fun a => error? (f a) := by
  cases r with
  | always decision | never => rfl
  | when condition decision => rw [mapRefs, error?_map, Condition.error?_mapRefs, refs]
  | branch condition onTrue onFalse =>
    rw [mapRefs, error?_bind fun c => error?_both (branch c), Condition.error?_mapRefs,
      error?_mapRefs onTrue, error?_mapRefs onFalse, refs, List.findSome?_append,
      List.findSome?_append, Option.or_assoc]
  | majority decision members | all decision members | any decision members | oneOf members =>
    rw [mapRefs, error?_map]
    exact error?_mapMembers members

theorem Rule.error?_mapMembers (rs : List (Rule α)) :
    error? (mapMembers f rs) = (memberRefs rs).findSome? fun a => error? (f a) := by
  cases rs with
  | nil => rfl
  | cons r rs =>
    rw [mapMembers, error?_both, error?_mapRefs r, error?_mapMembers rs, memberRefs,
      List.findSome?_append]

end

theorem Rule.memberRefs_eq_flatMap (rs : List (Rule α)) : memberRefs rs = rs.flatMap (·.refs) := by
  induction rs with
  | nil => rfl
  | cons r rs ih => rw [memberRefs, ih, List.flatMap_cons]

namespace RuleSet

variable {set : RuleSet String}

/-! ## References of a rule set and where they stand -/

def attributeSites (as : List (Attribute String)) : List (Site × String) :=
  as.flatMap fun a => a.value.refs.map fun name => (.attribute a.name, name)

/-- Rules are counted from `number` on. -/
def ruleSites (number : Nat) (rules : List (Rule String)) : List (Site × String) :=
  (rules.zipIdx number).flatMap fun p => p.1.refs.map fun name => (.rule p.2, name)

/-- Each reference with its place, in reading order. -/
def sites (set : RuleSet String) : List (Site × String) :=
  attributeSites set.attributes ++ ruleSites 1 set.rules

theorem map_snd_site (site : Site) (names : List String) :
    (names.map fun name => (site, name)).map Prod.snd = names := by
  rw [List.map_map]
  exact List.map_id names

theorem map_ruleSites (number : Nat) (rules : List (Rule String)) :
    (ruleSites number rules).map Prod.snd = rules.flatMap (·.refs) := by
  induction rules generalizing number with
  | nil => rfl
  | cons r rs ih =>
    rw [ruleSites, List.zipIdx_cons, List.flatMap_cons, List.map_append, map_snd_site,
      List.flatMap_cons, ← ih (number + 1), ruleSites]

/-- The references themselves are those of the rule set. -/
theorem map_sites (set : RuleSet String) : set.sites.map Prod.snd = set.refs := by
  rw [sites, List.map_append, map_ruleSites, attributeSites, List.map_flatMap, refs]
  simp only [map_snd_site]

/-- The error of a reference that names no attribute. -/
def unknown? (set : RuleSet String) (p : Site × String) : Option LinkError :=
  if p.2 ∈ set.names then none else some (.unresolved p.2 p.1)

theorem error?_find (site : Site) (name : String) :
    error? (set.find site name) = set.unknown? (site, name) := by
  have hslot : (set.slot? name).isSome ↔ name ∈ set.names := by
    simp [slot?, names]
  rw [find, unknown?]
  cases hname : set.slot? name with
  | none =>
    rw [if_neg (by rw [← hslot, hname]; exact Bool.false_ne_true)]
    rfl
  | some slot =>
    rw [if_pos (by rw [← hslot, hname]; rfl)]
    rfl

theorem error?_linkAttributes (as : List (Attribute String)) :
    error? (set.linkAttributes as) = (attributeSites as).findSome? set.unknown? := by
  induction as with
  | nil => rfl
  | cons a as ih =>
    have hattribute : error? (a.mapRefs (set.find (.attribute a.name))) =
        (a.value.refs.map fun name => (Site.attribute a.name, name)).findSome? set.unknown? := by
      rw [Attribute.mapRefs, error?_map, Term.error?_mapRefs, List.findSome?_map]
      simp only [error?_find]
      rfl
    rw [linkAttributes, error?_both, ih, hattribute, attributeSites, attributeSites,
      List.flatMap_cons, List.findSome?_append]

theorem error?_linkRules (number : Nat) (rules : List (Rule String)) :
    error? (set.linkRules number rules) = (ruleSites number rules).findSome? set.unknown? := by
  induction rules generalizing number with
  | nil => rfl
  | cons r rs ih =>
    have hrule : error? (r.mapRefs (set.find (.rule number))) =
        (r.refs.map fun name => (Site.rule number, name)).findSome? set.unknown? := by
      rw [Rule.error?_mapRefs, List.findSome?_map]
      simp only [error?_find]
      rfl
    rw [linkRules, error?_both, ih, hrule, ruleSites, ruleSites, List.zipIdx_cons,
      List.flatMap_cons, List.findSome?_append]

/-- The first name that came up before, or else the first reference to no attribute. -/
theorem error?_link (set : RuleSet String) :
    error? set.link =
      ((firstRepeated [] set.names).map .duplicate).or (set.sites.findSome? set.unknown?) := by
  rw [sites, List.findSome?_append, ← error?_linkAttributes, ← error?_linkRules, link, names]
  cases firstRepeated [] (set.attributes.map (·.name)) with
  | some name => rfl
  | none => exact error?_both _

/-- A rule set is linked exactly if its attributes have names of their own, and each name that is
referred to is that of an attribute. -/
theorem succeeds_link_iff (set : RuleSet String) :
    Succeeds set.link ↔ set.names.Nodup ∧ ∀ name ∈ set.refs, name ∈ set.names := by
  have hunknown : set.sites.findSome? set.unknown? = none ↔
      ∀ name ∈ set.refs, name ∈ set.names := by
    rw [List.findSome?_eq_none_iff, ← map_sites, List.forall_mem_map]
    simp only [unknown?, ite_eq_left_iff, reduceCtorEq, imp_false, not_not]
  rw [← error?_eq_none_iff, error?_link, Option.or_eq_none_iff, Option.map_eq_none_iff,
    firstRepeated_eq_none_iff, hunknown]
  simp

end RuleSet

end Policy
