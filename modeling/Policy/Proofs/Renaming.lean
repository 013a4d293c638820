import Policy.Proofs.Scoped

namespace Policy

variable {ε α β γ : Type}

/-! ## Other references in the same places -/

/-- The same term with `f r` for every reference `r`. -/
def Term.rename (f : α → β) (t : Term α) : Term β :=
  Id.run (t.mapRefs fun r => pure (f r))

def Condition.rename (f : α → β) (c : Condition α) : Condition β :=
  Id.run (c.mapRefs fun r => pure (f r))

def Rule.rename (f : α → β) (r : Rule α) : Rule β :=
  Id.run (r.mapRefs fun r => pure (f r))

def Attribute.rename (f : α → β) (a : Attribute α) : Attribute β := ⟨a.name, a.value.rename f⟩

section Parts

variable (f : α → β)

@[simp] theorem Term.rename_coerce (operand : Term α) (kind : Kind) :
    (coerce operand kind).rename f = coerce (operand.rename f) kind := rfl

@[simp] theorem Term.rename_binary (op : Operator) (lhs rhs : Term α) :
    (binary op lhs rhs).rename f = binary op (lhs.rename f) (rhs.rename f) := rfl

@[simp] theorem Condition.rename_not (inner : Condition α) :
    (not inner).rename f = not (inner.rename f) := rfl

@[simp] theorem Condition.rename_and (lhs rhs : Condition α) :
    (and lhs rhs).rename f = and (lhs.rename f) (rhs.rename f) := rfl

@[simp] theorem Condition.rename_or (lhs rhs : Condition α) :
    (or lhs rhs).rename f = or (lhs.rename f) (rhs.rename f) := rfl

@[simp] theorem Condition.rename_equal (lhs rhs : Term α) :
    (equal lhs rhs).rename f = equal (lhs.rename f) (rhs.rename f) := rfl

@[simp] theorem Condition.rename_greater (lhs rhs : Term α) :
    (greater lhs rhs).rename f = greater (lhs.rename f) (rhs.rename f) := rfl

@[simp] theorem Rule.rename_when (condition : Condition α) (decision : Decision) :
    (when condition decision).rename f = when (condition.rename f) decision := rfl

@[simp] theorem Rule.rename_branch (condition : Condition α) (onTrue onFalse : Rule α) :
    (branch condition onTrue onFalse).rename f =
      branch (condition.rename f) (onTrue.rename f) (onFalse.rename f) := rfl

end Parts

theorem Term.mapParams_id (f : α → β) (params : List (String × α)) :
    (mapParams (fun r => (pure (f r) : Id β)) params).run = params.map fun p => (p.1, f p.2) := by
  induction params with
  | nil => rfl
  | cons p params ih =>
    obtain ⟨name, r⟩ := p
    rw [List.map_cons, ← ih]
    rfl

@[simp] theorem Term.rename_rest (f : α → β) (url : String) (method : Method)
    (params : List (String × α)) :
    (Term.rest url method params).rename f =
      .rest url method (params.map fun p => (p.1, f p.2)) := by
  rw [← mapParams_id]
  rfl

theorem Rule.mapMembers_id (f : α → β) (rs : List (Rule α)) :
    (mapMembers (fun r => (pure (f r) : Id β)) rs).run = rs.map (·.rename f) := by
  induction rs with
  | nil => rfl
  | cons r rs ih =>
    rw [List.map_cons, ← ih]
    rfl

section Groups

variable (f : α → β)

@[simp] theorem Rule.rename_majority (decision : Decision) (members : List (Rule α)) :
    (majority decision members).rename f = majority decision (members.map (·.rename f)) := by
  rw [← mapMembers_id]
  rfl

@[simp] theorem Rule.rename_all (decision : Decision) (members : List (Rule α)) :
    (all decision members).rename f = all decision (members.map (·.rename f)) := by
  rw [← mapMembers_id]
  rfl

@[simp] theorem Rule.rename_any (decision : Decision) (members : List (Rule α)) :
    (any decision members).rename f = any decision (members.map (·.rename f)) := by
  rw [← mapMembers_id]
  rfl

@[simp] theorem Rule.rename_oneOf (members : List (Rule α)) :
    (oneOf members).rename f = oneOf (members.map (·.rename f)) := by
  rw [← mapMembers_id]
  rfl

end Groups

/-! ## Renamed references are found

Where one function finds a reference, the other one finds what it is renamed to. -/

section Found

variable {f : α → Except ε β} {g : α → Except ε γ} {π : β → γ}

theorem Term.mapParams_renamed (h : ∀ a b, f a = .ok b → g a = .ok (π b))
    {params : List (String × α)} {found : List (String × β)} (hf : mapParams f params = .ok found) :
    mapParams g params = .ok (found.map fun p => (p.1, π p.2)) := by
  induction params generalizing found with
  | nil =>
    cases hf
    rfl
  | cons p params ih =>
    obtain ⟨name, a⟩ := p
    obtain ⟨b, hb, hf⟩ := bind_ok_iff.mp hf
    obtain ⟨more, hm, hf⟩ := bind_ok_iff.mp hf
    cases hf
    simp only [mapParams, h a b hb, ih hm, ok_bind]
    rfl

theorem Term.mapRefs_renamed (h : ∀ a b, f a = .ok b → g a = .ok (π b)) {t : Term α}
    {u : Term β} (hf : t.mapRefs f = .ok u) : t.mapRefs g = .ok (u.rename π) := by
  induction t generalizing u with
  | string text | number n | request key =>
    cases hf
    rfl
  | attr a =>
    obtain ⟨b, hb, hf⟩ := bind_ok_iff.mp hf
    cases hf
    simp only [mapRefs, h a b hb, ok_bind]
    rfl
  | coerce operand kind ih =>
    obtain ⟨v, hv, hf⟩ := bind_ok_iff.mp hf
    cases hf
    simp only [mapRefs, ih hv, ok_bind]
    rfl
  | binary op lhs rhs ihl ihr =>
    obtain ⟨l, hl, hf⟩ := bind_ok_iff.mp hf
    obtain ⟨r, hr, hf⟩ := bind_ok_iff.mp hf
    cases hf
    simp only [mapRefs, ihl hl, ihr hr, ok_bind]
    rfl
  | rest url method params =>
    obtain ⟨found, hp, hf⟩ := bind_ok_iff.mp hf
    cases hf
    rw [rename_rest]
    simp only [mapRefs, mapParams_renamed h hp, ok_bind]
    rfl

theorem Condition.mapRefs_renamed (h : ∀ a b, f a = .ok b → g a = .ok (π b)) {c : Condition α}
    {d : Condition β} (hf : c.mapRefs f = .ok d) : c.mapRefs g = .ok (d.rename π) := by
  induction c generalizing d with
  | not inner ih =>
    obtain ⟨i, hi, hf⟩ := bind_ok_iff.mp hf
    cases hf
    simp only [mapRefs, ih hi, ok_bind]
    rfl
  | and lhs rhs ihl ihr | or lhs rhs ihl ihr =>
    obtain ⟨l, hl, hf⟩ := bind_ok_iff.mp hf
    obtain ⟨r, hr, hf⟩ := bind_ok_iff.mp hf
    cases hf
    simp only [mapRefs, ihl hl, ihr hr, ok_bind]
    rfl
  | equal lhs rhs | greater lhs rhs =>
    obtain ⟨l, hl, hf⟩ := bind_ok_iff.mp hf
    obtain ⟨r, hr, hf⟩ := bind_ok_iff.mp hf
    cases hf
    simp only [mapRefs, Term.mapRefs_renamed h hl, Term.mapRefs_renamed h hr, ok_bind]
    rfl

mutual

theorem Rule.mapRefs_renamed (h : ∀ a b, f a = .ok b → g a = .ok (π b)) (r : Rule α)
    {s : Rule β} (hf : r.mapRefs f = .ok s) : r.mapRefs g = .ok (s.rename π) := by
  cases r with
  | always decision | never =>
    cases hf
    rfl
  | when condition decision =>
    obtain ⟨c, hc, hf⟩ := bind_ok_iff.mp hf
    cases hf
    simp only [mapRefs, Condition.mapRefs_renamed h hc, ok_bind]
    rfl
  | branch condition onTrue onFalse =>
    obtain ⟨c, hc, hf⟩ := bind_ok_iff.mp hf
    obtain ⟨t, ht, hf⟩ := bind_ok_iff.mp hf
    obtain ⟨e, he, hf⟩ := bind_ok_iff.mp hf
    cases hf
    simp only [mapRefs, Condition.mapRefs_renamed h hc, mapRefs_renamed h onTrue ht,
      mapRefs_renamed h onFalse he, ok_bind]
    rfl
  | majority decision members | all decision members | any decision members | oneOf members =>
    obtain ⟨ms, hm, hf⟩ := bind_ok_iff.mp hf
    cases hf
    simp only [mapRefs, mapMembers_renamed h members hm, ok_bind, rename_majority, rename_all,
      rename_any, rename_oneOf]
    rfl

theorem Rule.mapMembers_renamed (h : ∀ a b, f a = .ok b → g a = .ok (π b)) (rs : List (Rule α))
    {ss : List (Rule β)} (hf : mapMembers f rs = .ok ss) :
    mapMembers g rs = .ok (ss.map (·.rename π)) := by
  cases rs with
  | nil =>
    cases hf
    rfl
  | cons r rs =>
    obtain ⟨s, hs, hf⟩ := bind_ok_iff.mp hf
    obtain ⟨ss, hss, hf⟩ := bind_ok_iff.mp hf
    cases hf
    simp only [mapMembers, mapRefs_renamed h r hs, mapMembers_renamed h rs hss, ok_bind]
    rfl

end

end Found

end Policy
