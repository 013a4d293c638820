import Policy.Proofs.Resolved
import Mathlib.Data.List.Basic

namespace Policy.RuleSet

/-! ## Rule sets that are not linked -/

/-- The name at place `i` came up further left or was seen before, and no name in front of it. -/
def RepeatsAt (seen names : List String) (i : Nat) (name : String) : Prop :=
  names[i]? = some name ∧ (name ∈ seen ∨ name ∈ names.take i) ∧
    ∀ k < i, ∀ other, names[k]? = some other → other ∉ seen ∧ other ∉ names.take k

/-- The name is the one at the smallest place whose name came up further left. -/
def FirstRepeat (names : List String) (name : String) : Prop :=
  ∃ i, names[i]? = some name ∧ name ∈ names.take i ∧
    ∀ k < i, ∀ other, names[k]? = some other → other ∉ names.take k

/-- Each reference in reading order, with the words for where it stands. -/
def cited (set : RuleSet String) : List (String × String) :=
  (set.attributes.flatMap fun a => a.value.refs.map fun name =>
    (name, "attribute '" ++ a.name ++ "'")) ++
  set.rules.zipIdx.flatMap fun p => p.1.refs.map fun name =>
    (name, "rule " ++ Decimal.text (p.2 + 1))

/-- The name is that of the first reference to no attribute, and the context that of its place. -/
def FirstUnknown (set : RuleSet String) (name context : String) : Prop :=
  ∃ before after, set.cited = before ++ (name, context) :: after ∧ name ∉ set.names ∧
    ∀ p ∈ before, p.1 ∈ set.names

/-! ### Names that came up before -/

section Repeats

variable {seen names : List String} {name other : String}

theorem repeatsAt_zero (h : other ∈ seen) (i : Nat) :
    RepeatsAt seen (other :: names) i name ↔ i = 0 ∧ other = name := by
  constructor
  · rintro ⟨hname, -, hfirst⟩
    cases i with
    | zero => exact ⟨rfl, Option.some.inj hname⟩
    | succ i => exact absurd h (hfirst 0 (Nat.succ_pos i) other rfl).1
  · rintro ⟨rfl, rfl⟩
    exact ⟨rfl, .inl h, fun k hk => absurd hk (Nat.not_lt_zero k)⟩

theorem not_repeatsAt_zero (h : other ∉ seen) : ¬ RepeatsAt seen (other :: names) 0 name := by
  rintro ⟨hname, hrepeat, -⟩
  cases hname
  rcases hrepeat with hseen | htake
  · exact h hseen
  · exact List.not_mem_nil htake

/-- A name that is read is seen from then on. -/
theorem repeatsAt_succ (h : other ∉ seen) (i : Nat) :
    RepeatsAt seen (other :: names) (i + 1) name ↔ RepeatsAt (other :: seen) names i name := by
  have hmem (k : Nat) (x : String) :
      (x ∈ seen ∨ x ∈ (other :: names).take (k + 1)) ↔ (x ∈ other :: seen ∨ x ∈ names.take k) := by
    rw [List.take_succ_cons, List.mem_cons, List.mem_cons, or_left_comm, or_assoc]
  have hnone (k : Nat) (x : String) :
      (x ∉ seen ∧ x ∉ (other :: names).take (k + 1)) ↔
        (x ∉ other :: seen ∧ x ∉ names.take k) := by
    rw [← not_or, ← not_or, hmem]
  constructor
  · rintro ⟨hname, hrepeat, hfirst⟩
    refine ⟨hname, (hmem i name).mp hrepeat, fun k hk x hx => ?_⟩
    exact (hnone k x).mp (hfirst (k + 1) (Nat.succ_lt_succ hk) x hx)
  · rintro ⟨hname, hrepeat, hfirst⟩
    refine ⟨hname, (hmem i name).mpr hrepeat, fun k hk x hx => ?_⟩
    cases k with
    | zero =>
      cases hx
      exact ⟨h, List.not_mem_nil⟩
    | succ k => exact (hnone k x).mpr (hfirst k (Nat.lt_of_succ_lt_succ hk) x hx)

/-- By induction on the names that are left. -/
theorem firstRepeated_eq_some_iff :
    firstRepeated seen names = some name ↔ ∃ i, RepeatsAt seen names i name := by
  induction names generalizing seen with
  | nil =>
    constructor
    · intro h
      cases h
    · rintro ⟨i, hname, -⟩
      cases hname
  | cons other names ih =>
    rw [firstRepeated]
    by_cases hother : other ∈ seen
    · rw [if_pos (List.contains_iff_mem.mpr hother)]
      simp only [repeatsAt_zero hother, exists_eq_left, Option.some.injEq]
    · rw [if_neg (mt List.contains_iff_mem.mp hother), ih]
      constructor
      · rintro ⟨i, hi⟩
        exact ⟨i + 1, (repeatsAt_succ hother i).mpr hi⟩
      · rintro ⟨i, hi⟩
        cases i with
        | zero => exact absurd hi (not_repeatsAt_zero hother)
        | succ i => exact ⟨i, (repeatsAt_succ hother i).mp hi⟩

theorem firstRepeat_iff : firstRepeated [] names = some name ↔ FirstRepeat names name := by
  rw [firstRepeated_eq_some_iff, FirstRepeat]
  simp only [RepeatsAt, List.not_mem_nil, false_or, not_false_eq_true, true_and]

end Repeats

/-! ### References to no attribute -/

variable {set : RuleSet String} {name : String}

theorem cited_eq (set : RuleSet String) : set.cited = set.sites.map fun p => (p.2, p.1.text) := by
  have hrules (number : Nat) (rules : List (Rule String)) :
      ((rules.zipIdx number).flatMap fun p => p.1.refs.map fun name =>
          (name, "rule " ++ Decimal.text (p.2 + 1))) =
        (ruleSites (number + 1) rules).map fun p => (p.2, p.1.text) := by
    induction rules generalizing number with
    | nil => rfl
    | cons r rs ih =>
      rw [List.zipIdx_cons, List.flatMap_cons, ih, ruleSites, ruleSites, List.zipIdx_cons,
        List.flatMap_cons, List.map_append, List.map_map]
      rfl
  have hattributes :
      (set.attributes.flatMap fun a => a.value.refs.map fun name =>
          (name, "attribute '" ++ a.name ++ "'")) =
        (attributeSites set.attributes).map fun p => (p.2, p.1.text) := by
    rw [attributeSites, List.map_flatMap]
    simp only [List.map_map]
    rfl
  rw [cited, sites, List.map_append, hattributes, hrules 0]

theorem unknown?_eq_none_iff {p : Site × String} : set.unknown? p = none ↔ p.2 ∈ set.names := by
  rw [unknown?]
  split
  · next h => exact iff_of_true rfl h
  · next h => exact iff_of_false (Option.some_ne_none _) h

theorem unknown?_eq_some_iff {p : Site × String} {e : LinkError} :
    set.unknown? p = some e ↔ p.2 ∉ set.names ∧ e = .unresolved p.2 p.1 := by
  rw [unknown?]
  split
  · next h => exact iff_of_false (Option.some_ne_none _).symm fun he => he.1 h
  · next h =>
    constructor
    · intro he
      exact ⟨h, (Option.some.inj he).symm⟩
    · intro he
      rw [he.2]

/-- The first error among the references is that of the first one to no attribute. -/
theorem firstUnknown_iff {context : String} :
    (∃ site, set.sites.findSome? set.unknown? = some (.unresolved name site) ∧
      site.text = context) ↔ FirstUnknown set name context := by
  rw [FirstUnknown, cited_eq]
  constructor
  · rintro ⟨site, hfound, rfl⟩
    obtain ⟨before, p, after, hsites, hp, hbefore⟩ := List.findSome?_eq_some_iff.mp hfound
    obtain ⟨hunknown, he⟩ := unknown?_eq_some_iff.mp hp
    obtain ⟨rfl, rfl⟩ := LinkError.unresolved.inj he
    refine ⟨before.map _, after.map _, by rw [hsites, List.map_append]; rfl, hunknown, ?_⟩
    refine List.forall_mem_map.mpr fun q hq => ?_
    exact unknown?_eq_none_iff.mp (hbefore q hq)
  · rintro ⟨before, after, hcited, hunknown, hbefore⟩
    obtain ⟨front, back, hsites, rfl, hback⟩ := List.map_eq_append_iff.mp hcited
    obtain ⟨p, back, rfl, hp, rfl⟩ := List.map_eq_cons_iff.mp hback
    cases hp
    refine ⟨p.1, List.findSome?_eq_some_iff.mpr ⟨front, p, back, hsites, ?_, ?_⟩, rfl⟩
    · exact unknown?_eq_some_iff.mpr ⟨hunknown, rfl⟩
    · intro q hq
      exact unknown?_eq_none_iff.mpr (List.forall_mem_map.mp hbefore q hq)

theorem map_cited (set : RuleSet String) : set.cited.map Prod.fst = set.refs := by
  rw [cited_eq, List.map_map, ← map_sites]
  rfl

/-- Where some reference names no attribute, one of them is the first. -/
theorem exists_firstUnknown_iff :
    (∃ name context, FirstUnknown set name context) ↔ ∃ name ∈ set.refs, name ∉ set.names := by
  constructor
  · rintro ⟨name, context, before, after, hcited, hunknown, -⟩
    refine ⟨name, ?_, hunknown⟩
    rw [← map_cited, hcited]
    simp
  · rintro ⟨name, hname, hunknown⟩
    cases hfound : set.sites.findSome? set.unknown? with
    | none =>
      rw [← map_sites] at hname
      obtain ⟨p, hp, rfl⟩ := List.mem_map.mp hname
      exact absurd (unknown?_eq_none_iff.mp (List.findSome?_eq_none_iff.mp hfound p hp)) hunknown
    | some e =>
      obtain ⟨before, p, after, -, hp, -⟩ := List.findSome?_eq_some_iff.mp hfound
      obtain ⟨-, rfl⟩ := unknown?_eq_some_iff.mp hp
      exact ⟨p.2, p.1.text, firstUnknown_iff.mp ⟨p.1, hfound, rfl⟩⟩

/-! ### What linking fails with -/

theorem link_duplicate_iff :
    set.link = .error (.duplicate name) ↔ FirstRepeat set.names name := by
  rw [← error?_eq_some_iff, error?_link, ← firstRepeat_iff]
  cases firstRepeated [] set.names with
  | some other => simp
  | none =>
    constructor
    · intro h
      obtain ⟨before, p, after, -, hp, -⟩ := List.findSome?_eq_some_iff.mp h
      obtain ⟨-, he⟩ := unknown?_eq_some_iff.mp hp
      cases he
    · intro h
      cases h

theorem nodup_iff_firstRepeated : set.names.Nodup ↔ firstRepeated [] set.names = none := by
  rw [firstRepeated_eq_none_iff]
  simp

theorem link_unresolved_iff {site : Site} :
    set.link = .error (.unresolved name site) ↔
      set.names.Nodup ∧ set.sites.findSome? set.unknown? = some (.unresolved name site) := by
  rw [← error?_eq_some_iff, error?_link, nodup_iff_firstRepeated]
  cases firstRepeated [] set.names with
  | some other => simp
  | none => simp

/-- Linking fails for a name that two attributes have, which is the first one to come up again.
Where names are distinct, it fails for a reference to no attribute, which is the first one in
reading order, and tells in which attribute or rule that reference stands. -/
theorem link_fails_with_first (set : RuleSet String) :
    ((∀ name, set.link = .error (.duplicate name) ↔ FirstRepeat set.names name) ∧
      ((∃ name, set.link = .error (.duplicate name)) ↔ ¬ set.names.Nodup)) ∧
    (∀ name context, (∃ site, set.link = .error (.unresolved name site) ∧ site.text = context) ↔
      set.names.Nodup ∧ FirstUnknown set name context) ∧
    ((∃ name site, set.link = .error (.unresolved name site)) ↔
      set.names.Nodup ∧ ∃ name ∈ set.refs, name ∉ set.names) := by
  have hunresolved (name context : String) :
      (∃ site, set.link = .error (.unresolved name site) ∧ site.text = context) ↔
        set.names.Nodup ∧ FirstUnknown set name context := by
    simp only [link_unresolved_iff, and_assoc, exists_and_left, firstUnknown_iff]
  refine ⟨⟨fun name => link_duplicate_iff, ?_⟩, hunresolved, ?_⟩
  · simp only [link_duplicate_iff, ← firstRepeat_iff, nodup_iff_firstRepeated,
      ← ne_eq, Option.ne_none_iff_exists']
  · rw [← exists_firstUnknown_iff]
    constructor
    · rintro ⟨name, site, h⟩
      obtain ⟨hnodup, hfirst⟩ := (hunresolved name site.text).mp ⟨site, h, rfl⟩
      exact ⟨hnodup, name, site.text, hfirst⟩
    · rintro ⟨hnodup, name, context, hfirst⟩
      obtain ⟨site, h, -⟩ := (hunresolved name context).mpr ⟨hnodup, hfirst⟩
      exact ⟨name, site, h⟩

end Policy.RuleSet
