import Policy.Proofs.Document.Described
import Policy.Proofs.Document.Shapes

namespace Policy.Document

open Schema

/-! ## Documents that are the same

Two documents are compared as far as the names of their members are heeded. The order of members
counts for parameters only. -/

mutual

def Same (heeded : List (String × Json) → String → Prop) : Json → Json → Prop
  | .object members, other => ∃ others, other = .object others ∧
      ∀ name, heeded members name →
        Option.Rel (fun P y => P y) (Json.get? name (sameMembers heeded members))
          (Json.get? name others)
  | .array items, other => ∃ others, other = .array others ∧ SameItems heeded items others
  | doc, other => other = doc

def SameItems (heeded : List (String × Json) → String → Prop) : List Json → List Json → Prop
  | [], others => others = []
  | x :: xs, others => ∃ y ys, others = y :: ys ∧ Same heeded x y ∧ SameItems heeded xs ys

def sameMembers (heeded : List (String × Json) → String → Prop) :
    List (String × Json) → List (String × (Json → Prop))
  | [] => []
  | (name, x) :: members =>
    (name, fun y => if name = "params" then y = x else Same heeded x y) ::
      sameMembers heeded members

end

/-- How the members of one name are compared. -/
def Under (R : Json → Json → Prop) (name : String) (x y : Json) : Prop :=
  if name = "params" then y = x else R x y

section Same

variable {heeded : List (String × Json) → String → Prop}

theorem get_sameMembers (name : String) (members : List (String × Json)) :
    Json.get? name (sameMembers heeded members) =
      (Json.get? name members).map (Under (Same heeded) name) := by
  induction members with
  | nil => rfl
  | cons m members ih =>
    obtain ⟨k, x⟩ := m
    rw [sameMembers, Json.get?, Json.get?]
    by_cases hk : k = name
    · rw [if_pos hk, if_pos hk, Option.map_some, hk]
      rfl
    · rw [if_neg hk, if_neg hk, ih]

theorem same_object_iff (members : List (String × Json)) (other : Json) :
    Same heeded (.object members) other ↔ ∃ others, other = .object others ∧
      ∀ name, heeded members name → Option.Rel (Under (Same heeded) name)
        (Json.get? name members) (Json.get? name others) := by
  have hmap : ∀ (R : Json → Json → Prop) (x y : Option Json),
      Option.Rel (fun P y => P y) (x.map R) y ↔ Option.Rel R x y := by
    intro R x y
    constructor
    · intro h
      cases x with
      | none =>
        cases h
        exact .none
      | some x =>
        cases h with
        | some h => exact .some h
    · intro h
      cases h with
      | none => exact .none
      | some h => exact .some h
  simp only [Same, get_sameMembers, hmap]

theorem same_array_iff (items : List Json) (other : Json) :
    Same heeded (.array items) other ↔
      ∃ others, other = .array others ∧ List.Forall₂ (Same heeded) items others := by
  have hitems : ∀ others, SameItems heeded items others ↔
      List.Forall₂ (Same heeded) items others := by
    induction items with
    | nil => simp [SameItems]
    | cons x xs ih =>
      intro others
      simp only [SameItems, List.forall₂_cons_left_iff, ih]
      constructor
      · rintro ⟨y, ys, rfl, hy, hys⟩
        exact ⟨y, ys, hy, hys, rfl⟩
      · rintro ⟨y, ys, hy, hys, rfl⟩
        exact ⟨y, ys, rfl, hy, hys⟩
  simp only [Same, hitems]

end Same

/-- The same document but for the order of members that are no parameters. -/
def Alike : Json → Json → Prop := Same fun _ _ => True

/-! ## Decisions that do not count -/

def isNever (members : List (String × Json)) : Bool :=
  Json.get? "type" members = some (.string "never")

mutual

/-- The document with "Undecided" for the decision of each rule that never applies. -/
def undecide : Json → Json
  | .object members => .object (undecideMembers (isNever members) members)
  | .array items => .array (undecideItems items)
  | doc => doc

def undecideItems : List Json → List Json
  | [] => []
  | x :: xs => undecide x :: undecideItems xs

def undecideMembers (never : Bool) : List (String × Json) → List (String × Json)
  | [] => []
  | (name, x) :: members =>
    (name, if never && name = "decision" then .string "Undecided"
      else if name = "params" then x else undecide x) :: undecideMembers never members

end

/-- What a member becomes. -/
def undecideAt (never : Bool) (name : String) (x : Json) : Json :=
  if never && name = "decision" then .string "Undecided"
  else if name = "params" then x else undecide x

theorem undecideItems_eq_map (items : List Json) : undecideItems items = items.map undecide := by
  induction items with
  | nil => rfl
  | cons x xs ih => rw [undecideItems, ih, List.map_cons]

theorem get_undecideMembers (never : Bool) (name : String) (members : List (String × Json)) :
    Json.get? name (undecideMembers never members) =
      (Json.get? name members).map (undecideAt never name) := by
  induction members with
  | nil => rfl
  | cons m members ih =>
    obtain ⟨k, x⟩ := m
    rw [undecideMembers, Json.get?, Json.get?]
    by_cases hk : k = name
    · rw [if_pos hk, if_pos hk, Option.map_some, hk]
      rfl
    · rw [if_neg hk, if_neg hk, ih]

/-! ## Members that are written again -/

/-- What is written under a name comes to what was read there. -/
def Rewrites (never : Bool) (name : String) (y x : Json) : Prop :=
  Under Alike name y (undecideAt never name x)

section Rewrites

variable {name : String}

theorem rewrites_text (name text : String) : Rewrites false name (.string text) (.string text) := by
  by_cases h : name = "params"
  · simp [Rewrites, Under, undecideAt, h]
  · simp [Rewrites, Under, undecideAt, h, undecide, Alike, Same]

theorem rewrites_number (n : Json.Number) : Rewrites false name (.number n) (.number n) := by
  by_cases h : name = "params"
  · simp [Rewrites, Under, undecideAt, h]
  · simp [Rewrites, Under, undecideAt, h, undecide, Alike, Same]

theorem rewrites_params (x : Json) : Rewrites false "params" x x := rfl

theorem rewrites_part {x y : Json} (hname : name ≠ "params") (h : Alike y (undecide x)) :
    Rewrites false name y x := by
  simpa [Rewrites, Under, undecideAt, hname] using h

theorem rewrites_kind : Rewrites true "type" (.string "never") (.string "never") := by
  simp [Rewrites, Under, undecideAt, undecide, Alike, Same]

theorem rewrites_undecided (x : Json) :
    Rewrites true "decision" (.string "Undecided") x := by
  simp [Rewrites, Under, undecideAt, Alike, Same]

end Rewrites

/-- Objects with the same names are alike if their members are. -/
theorem alike_of_has {record : List (String × (Json → Prop))} {members outs : List (String × Json)}
    {never : Bool} (hhas : Has record members) (hnever : isNever members = never)
    (hnames : outs.map Prod.fst = record.map Prod.fst)
    (h : HasAll (outs.map fun out => (out.1, Rewrites never out.1 out.2)) members) :
    Alike (.object outs) (undecide (.object members)) := by
  subst hnever
  rw [Alike, undecide, same_object_iff]
  refine ⟨_, rfl, fun name _ => ?_⟩
  rw [get_undecideMembers]
  cases hy : Json.get? name outs with
  | none =>
    rw [Json.get_eq_none_iff, hnames, ← Json.get_eq_none_iff] at hy
    rw [hhas.get_none hy]
    exact .none
  | some y =>
    have hmem := List.mem_map_of_mem (f := fun out => (out.1, Rewrites (isNever members) out.1 out.2))
      (Json.mem_of_get hy)
    obtain ⟨x, hx, hrewrites⟩ := h.get hmem
    rw [hx]
    exact .some hrewrites

theorem alike_array {xs ys : List Json} (h : List.Forall₂ (fun x y => Alike x (undecide y)) xs ys) :
    Alike (.array xs) (undecide (.array ys)) := by
  rw [Alike, undecide, same_array_iff, undecideItems_eq_map]
  exact ⟨_, rfl, List.forall₂_map_right_iff.mpr h⟩

theorem isNever_eq {members : List (String × Json)} {kind : String}
    (htype : Json.get? "type" members = some (.string kind)) :
    isNever members = decide (kind = "never") := by
  simp [isNever, htype]

/-- Two parts that are written again. -/
theorem alike_pair {record : List (String × (Json → Prop))} {members : List (String × Json)}
    {kind : String} {l r lhs rhs : Json} (hhas : Has record members)
    (hnames : ["type", "lhs", "rhs"] = record.map Prod.fst) (hkind : kind ≠ "never")
    (htype : Json.get? "type" members = some (.string kind))
    (hlhs : Json.get? "lhs" members = some lhs) (hrhs : Json.get? "rhs" members = some rhs)
    (hl : Alike l (undecide lhs)) (hr : Alike r (undecide rhs)) :
    Alike (node kind [("lhs", l), ("rhs", r)]) (undecide (.object members)) := by
  have hnever : isNever members = false := by simp [isNever_eq htype, hkind]
  exact alike_of_has hhas hnever hnames
    ⟨⟨_, htype, rewrites_text _ _⟩, ⟨_, hlhs, rewrites_part (by simp) hl⟩,
      ⟨_, hrhs, rewrites_part (by simp) hr⟩, trivial⟩

/-! ## Terms -/

/-- By recursion on the document, one case for each form of a term. -/
theorem alike_writeTerm (path : Path) (doc : Json) (hfits : Fits doc (.node .term))
    (hdistinct : doc.Distinct) {t : Term String} (h : readTerm path doc = .ok t) :
    Alike (writeTerm t) (undecide doc) := by
  obtain ⟨form, hform, members, rfl, hhas⟩ := (fits_node_iff doc .term).mp hfits
  obtain ⟨kind, hkind, htype⟩ := exists_kind hform hhas
  simp only [Family.forms, List.mem_cons, List.not_mem_nil, or_false] at hform
  rcases hform with rfl | rfl | rfl | rfl | rfl | rfl | rfl
  · cases List.mem_singleton.mp hkind
    obtain ⟨text, hvalue⟩ := hhas.text "value" rfl
    cases (readTerm_string htype hvalue).symm.trans h
    exact alike_of_has hhas (isNever_eq htype) rfl
      ⟨⟨_, htype, rewrites_text _ _⟩, ⟨_, hvalue, rewrites_text _ _⟩, trivial⟩
  · cases List.mem_singleton.mp hkind
    rw [readTerm_number htype] at h
    obtain ⟨n, hn, h⟩ := bind_ok_iff.mp h
    cases h
    exact alike_of_has hhas (isNever_eq htype) rfl
      ⟨⟨_, htype, rewrites_text _ _⟩, ⟨_, get_of_requiredNumber hn, rewrites_number _⟩, trivial⟩
  · cases List.mem_singleton.mp hkind
    obtain ⟨ref, hname⟩ := hhas.ref "name" rfl
    cases (readTerm_attr htype hname).symm.trans h
    exact alike_of_has hhas (isNever_eq htype) rfl
      ⟨⟨_, htype, rewrites_text _ _⟩, ⟨_, hname, rewrites_text _ _⟩, trivial⟩
  · cases List.mem_singleton.mp hkind
    obtain ⟨key, hkey⟩ := hhas.text "key" rfl
    cases (readTerm_request htype hkey).symm.trans h
    exact alike_of_has hhas (isNever_eq htype) rfl
      ⟨⟨_, htype, rewrites_text _ _⟩, ⟨_, hkey, rewrites_text _ _⟩, trivial⟩
  · cases List.mem_singleton.mp hkind
    obtain ⟨url, hurl⟩ := hhas.text "url" rfl
    obtain ⟨_, hword, hmethod⟩ := hhas.word "method" rfl
    obtain ⟨method, rfl⟩ := exists_method hword
    obtain ⟨params, hparams⟩ := hhas.params "params" rfl
    cases (readTerm_rest htype hurl hmethod hparams).symm.trans h
    have hnodup := (hdistinct.of_get hparams).1
    rw [← Json.collect_of_nodup hnodup] at hparams
    exact alike_of_has hhas (isNever_eq htype) rfl
      ⟨⟨_, htype, rewrites_text _ _⟩, ⟨_, hurl, rewrites_text _ _⟩,
        ⟨_, hmethod, rewrites_text _ _⟩, ⟨_, hparams, rewrites_params _⟩, trivial⟩
  · cases List.mem_singleton.mp hkind
    obtain ⟨inner, hfrom, hinner⟩ := hhas.field "from" rfl
    obtain ⟨_, hword, hto⟩ := hhas.word "to" rfl
    obtain ⟨target, rfl⟩ := exists_kind_of_name hword
    have hsize := sizeOf_get hfrom
    rw [readTerm_coerce_of_get htype hfrom hto] at h
    obtain ⟨operand, hoperand, h⟩ := bind_ok_iff.mp h
    cases h
    have halike := alike_writeTerm _ inner hinner (hdistinct.of_get hfrom) hoperand
    exact alike_of_has hhas (isNever_eq htype) rfl
      ⟨⟨_, htype, rewrites_text _ _⟩, ⟨_, hfrom, rewrites_part (by simp) halike⟩,
        ⟨_, hto, rewrites_text _ _⟩, trivial⟩
  · obtain ⟨op, rfl⟩ := exists_operator hkind
    obtain ⟨lhs, hlhs, hl⟩ := hhas.field "lhs" rfl
    obtain ⟨rhs, hrhs, hr⟩ := hhas.field "rhs" rfl
    have hsizel := sizeOf_get hlhs
    have hsizer := sizeOf_get hrhs
    rw [readTerm_binary htype hlhs hrhs] at h
    obtain ⟨l, hreadl, h⟩ := bind_ok_iff.mp h
    obtain ⟨r, hreadr, h⟩ := bind_ok_iff.mp h
    cases h
    have hleft := alike_writeTerm _ lhs hl (hdistinct.of_get hlhs) hreadl
    have hright := alike_writeTerm _ rhs hr (hdistinct.of_get hrhs) hreadr
    have hnever : op.name ≠ "never" := by
      cases op with
      | _ => decide
    exact alike_pair hhas rfl hnever htype hlhs hrhs hleft hright
termination_by sizeOf doc

/-! ## Conditions -/

theorem writeCondition_join {kind : String}
    {join : Condition String → Condition String → Condition String} (h : (kind, join) ∈ joins)
    (lhs rhs : Condition String) : writeCondition (join lhs rhs) =
      node kind [("lhs", writeCondition lhs), ("rhs", writeCondition rhs)] := by
  simp only [joins, List.mem_cons, Prod.mk.injEq, List.not_mem_nil, or_false] at h
  rcases h with ⟨rfl, rfl⟩ | ⟨rfl, rfl⟩
  · rfl
  · rfl

theorem writeCondition_compare {kind : String}
    {compare : Term String → Term String → Condition String} (h : (kind, compare) ∈ comparisons)
    (lhs rhs : Term String) : writeCondition (compare lhs rhs) =
      node kind [("lhs", writeTerm lhs), ("rhs", writeTerm rhs)] := by
  simp only [comparisons, List.mem_cons, Prod.mk.injEq, List.not_mem_nil, or_false] at h
  rcases h with ⟨rfl, rfl⟩ | ⟨rfl, rfl⟩
  · rfl
  · rfl

theorem writeRule_group {kind : String} {group : Decision → List (Rule String) → Rule String}
    (h : (kind, group) ∈ groups) (decision : Decision) (rules : List (Rule String)) :
    writeRule (group decision rules) =
      node kind [writeDecision decision, ("rules", .array (writeRules rules))] := by
  simp only [groups, List.mem_cons, Prod.mk.injEq, List.not_mem_nil, or_false] at h
  rcases h with ⟨rfl, rfl⟩ | ⟨rfl, rfl⟩ | ⟨rfl, rfl⟩
  · rfl
  · rfl
  · rfl

theorem alike_writeCondition (path : Path) (doc : Json) (hfits : Fits doc (.node .condition))
    (hdistinct : doc.Distinct) {c : Condition String} (h : readCondition path doc = .ok c) :
    Alike (writeCondition c) (undecide doc) := by
  obtain ⟨form, hform, members, rfl, hhas⟩ := (fits_node_iff doc .condition).mp hfits
  obtain ⟨kind, hkind, htype⟩ := exists_kind hform hhas
  simp only [Family.forms, List.mem_cons, List.not_mem_nil, or_false] at hform
  rcases hform with rfl | rfl | rfl
  · cases List.mem_singleton.mp hkind
    obtain ⟨inner, hget, hinner⟩ := hhas.field "condition" rfl
    have hsize := sizeOf_get hget
    rw [readCondition_not htype hget] at h
    obtain ⟨i, hi, h⟩ := bind_ok_iff.mp h
    cases h
    have halike := alike_writeCondition _ inner hinner (hdistinct.of_get hget) hi
    exact alike_of_has hhas (isNever_eq htype) rfl
      ⟨⟨_, htype, rewrites_text _ _⟩, ⟨_, hget, rewrites_part (by simp) halike⟩, trivial⟩
  · obtain ⟨join, hjoin⟩ := exists_join hkind
    obtain ⟨lhs, hlhs, hl⟩ := hhas.field "lhs" rfl
    obtain ⟨rhs, hrhs, hr⟩ := hhas.field "rhs" rfl
    have hsizel := sizeOf_get hlhs
    have hsizer := sizeOf_get hrhs
    rw [readCondition_join hjoin htype hlhs hrhs] at h
    obtain ⟨l, hreadl, h⟩ := bind_ok_iff.mp h
    obtain ⟨r, hreadr, h⟩ := bind_ok_iff.mp h
    cases h
    have hleft := alike_writeCondition _ lhs hl (hdistinct.of_get hlhs) hreadl
    have hright := alike_writeCondition _ rhs hr (hdistinct.of_get hrhs) hreadr
    have hnever : kind ≠ "never" := by
      rintro rfl
      exact absurd hkind (by decide)
    rw [writeCondition_join hjoin]
    exact alike_pair hhas rfl hnever htype hlhs hrhs hleft hright
  · obtain ⟨compare, hcompare⟩ := exists_comparison hkind
    obtain ⟨lhs, hlhs, hl⟩ := hhas.field "lhs" rfl
    obtain ⟨rhs, hrhs, hr⟩ := hhas.field "rhs" rfl
    rw [readCondition_compare hcompare htype hlhs hrhs] at h
    obtain ⟨l, hreadl, h⟩ := bind_ok_iff.mp h
    obtain ⟨r, hreadr, h⟩ := bind_ok_iff.mp h
    cases h
    have hleft := alike_writeTerm _ lhs hl (hdistinct.of_get hlhs) hreadl
    have hright := alike_writeTerm _ rhs hr (hdistinct.of_get hrhs) hreadr
    have hnever : kind ≠ "never" := by
      rintro rfl
      exact absurd hkind (by decide)
    rw [writeCondition_compare hcompare]
    exact alike_pair hhas rfl hnever htype hlhs hrhs hleft hright
termination_by sizeOf doc

/-! ## Rules -/

mutual

theorem alike_writeRule (path : Path) (doc : Json) (hfits : Fits doc (.node .rule))
    (hdistinct : doc.Distinct) {r : Rule String} (h : readRule path doc = .ok r) :
    Alike (writeRule r) (undecide doc) := by
  obtain ⟨form, hform, members, rfl, hhas⟩ := (fits_node_iff doc .rule).mp hfits
  obtain ⟨kind, hkind, htype⟩ := exists_kind hform hhas
  simp only [Family.forms, List.mem_cons, List.not_mem_nil, or_false] at hform
  rcases hform with rfl | rfl | rfl | rfl | rfl
  · obtain ⟨_, hword, hdecision⟩ := hhas.word "decision" rfl
    obtain ⟨decision, rfl⟩ := exists_decision hword
    rcases List.mem_pair.mp hkind with rfl | rfl
    · cases (readRule_always htype hdecision).symm.trans h
      exact alike_of_has hhas (isNever_eq htype) rfl
        ⟨⟨_, htype, rewrites_text _ _⟩, ⟨_, hdecision, rewrites_text _ _⟩, trivial⟩
    · cases (readRule_never htype hdecision).symm.trans h
      exact alike_of_has hhas (isNever_eq htype) rfl
        ⟨⟨_, htype, rewrites_kind⟩, ⟨_, hdecision, rewrites_undecided _⟩, trivial⟩
  · cases List.mem_singleton.mp hkind
    obtain ⟨condition, hget, hc⟩ := hhas.field "condition" rfl
    obtain ⟨_, hword, hdecision⟩ := hhas.word "decision" rfl
    obtain ⟨decision, rfl⟩ := exists_decision hword
    rw [readRule_when htype hget hdecision] at h
    obtain ⟨c, hreadc, h⟩ := bind_ok_iff.mp h
    cases h
    have hcondition := alike_writeCondition _ condition hc (hdistinct.of_get hget) hreadc
    exact alike_of_has hhas (isNever_eq htype) rfl
      ⟨⟨_, htype, rewrites_text _ _⟩, ⟨_, hget, rewrites_part (by simp) hcondition⟩,
        ⟨_, hdecision, rewrites_text _ _⟩, trivial⟩
  · cases List.mem_singleton.mp hkind
    obtain ⟨condition, hget, hc⟩ := hhas.field "condition" rfl
    obtain ⟨onTrue, htrue, ht⟩ := hhas.field "true" rfl
    obtain ⟨onFalse, hfalse, hf⟩ := hhas.field "false" rfl
    have hsizet := sizeOf_get htrue
    have hsizef := sizeOf_get hfalse
    rw [readRule_branch htype hget htrue hfalse] at h
    obtain ⟨c, hreadc, h⟩ := bind_ok_iff.mp h
    obtain ⟨t, hreadt, h⟩ := bind_ok_iff.mp h
    obtain ⟨f, hreadf, h⟩ := bind_ok_iff.mp h
    cases h
    have hcondition := alike_writeCondition _ condition hc (hdistinct.of_get hget) hreadc
    have hthen := alike_writeRule _ onTrue ht (hdistinct.of_get htrue) hreadt
    have helse := alike_writeRule _ onFalse hf (hdistinct.of_get hfalse) hreadf
    exact alike_of_has hhas (isNever_eq htype) rfl
      ⟨⟨_, htype, rewrites_text _ _⟩, ⟨_, hget, rewrites_part (by simp) hcondition⟩,
        ⟨_, htrue, rewrites_part (by simp) hthen⟩, ⟨_, hfalse, rewrites_part (by simp) helse⟩,
        trivial⟩
  · obtain ⟨group, hgroup⟩ := exists_group hkind
    obtain ⟨_, hword, hdecision⟩ := hhas.word "decision" rfl
    obtain ⟨decision, rfl⟩ := exists_decision hword
    obtain ⟨items, hrules, hitems⟩ := hhas.items "rules" rfl
    have hsize := sizeOf_get_array hrules
    rw [readRule_group hgroup htype hdecision hrules] at h
    obtain ⟨rules, hread, h⟩ := bind_ok_iff.mp h
    cases h
    have hmembers := alike_writeRules _ 0 items hitems
      (fun x hx => (hdistinct.of_get hrules).of_mem hx) hread
    have hnever : isNever members = false := by
      rw [isNever_eq htype, decide_eq_false_iff_not]
      rintro rfl
      exact absurd hkind (by decide)
    rw [writeRule_group hgroup]
    exact alike_of_has hhas hnever rfl
      ⟨⟨_, htype, rewrites_text _ _⟩, ⟨_, hdecision, rewrites_text _ _⟩,
        ⟨_, hrules, rewrites_part (by simp) (alike_array hmembers)⟩, trivial⟩
  · cases List.mem_singleton.mp hkind
    obtain ⟨items, hrules, hitems⟩ := hhas.items "rules" rfl
    have hsize := sizeOf_get_array hrules
    rw [readRule_oneOf htype hrules] at h
    obtain ⟨rules, hread, h⟩ := bind_ok_iff.mp h
    cases h
    have hmembers := alike_writeRules _ 0 items hitems
      (fun x hx => (hdistinct.of_get hrules).of_mem hx) hread
    exact alike_of_has hhas (isNever_eq htype) rfl
      ⟨⟨_, htype, rewrites_text _ _⟩,
        ⟨_, hrules, rewrites_part (by simp) (alike_array hmembers)⟩, trivial⟩
termination_by sizeOf doc

theorem alike_writeRules (path : Path) (index : Nat) (docs : List Json)
    (hfits : ∀ x ∈ docs, Fits x (.node .rule)) (hdistinct : ∀ x ∈ docs, x.Distinct)
    {rs : List (Rule String)} (h : readRules path index docs = .ok rs) :
    List.Forall₂ (fun x y => Alike x (undecide y)) (writeRules rs) docs := by
  match docs with
  | [] =>
    rw [readRules] at h
    cases h
    exact .nil
  | x :: xs =>
    rw [readRules] at h
    obtain ⟨r, hr, h⟩ := bind_ok_iff.mp h
    obtain ⟨rest, hrest, h⟩ := bind_ok_iff.mp h
    cases h
    obtain ⟨hx, hxs⟩ := List.forall_mem_cons.mp hfits
    obtain ⟨hdx, hdxs⟩ := List.forall_mem_cons.mp hdistinct
    exact .cons (alike_writeRule _ x hx hdx hr)
      (alike_writeRules path (index + 1) xs hxs hdxs hrest)
termination_by sizeOf docs

end

/-! ## Rule sets -/

theorem isNever_of_has {record : List (String × (Json → Prop))} {members : List (String × Json)}
    (h : Has record members) (hrecord : Json.get? "type" record = none) :
    isNever members = false := by
  simp [isNever, h.get_none hrecord]

theorem alike_writeAttribute (path : Path) (doc : Json) (hdoc : IsAttribute doc)
    (hdistinct : doc.Distinct) {a : Attribute String} (h : readAttribute path doc = .ok a) :
    Alike (writeAttribute a) (undecide doc) := by
  obtain ⟨members, rfl, hhas⟩ := hdoc
  obtain ⟨_, hname, hn⟩ : ∃ x, Json.get? "name" members = some x ∧ Fits x .name := hhas.get rfl
  obtain ⟨text, rfl, -⟩ := hn.name
  obtain ⟨value, hvalue, hv⟩ : ∃ x, Json.get? "value" members = some x ∧ Fits x (.node .term) :=
    hhas.get rfl
  rw [readAttribute_eq hname hvalue] at h
  obtain ⟨t, ht, h⟩ := bind_ok_iff.mp h
  cases h
  have halike := alike_writeTerm _ value hv (hdistinct.of_get hvalue) ht
  exact alike_of_has hhas (isNever_of_has hhas rfl) rfl
    ⟨⟨_, hname, rewrites_text _ _⟩, ⟨_, hvalue, rewrites_part (by simp) halike⟩, trivial⟩

theorem alike_writeAttributes (path : Path) (index : Nat) {docs : List Json}
    (hdocs : ∀ x ∈ docs, IsAttribute x) (hdistinct : ∀ x ∈ docs, x.Distinct)
    {as : List (Attribute String)} (h : readAttributes path index docs = .ok as) :
    List.Forall₂ (fun x y => Alike x (undecide y)) (as.map writeAttribute) docs := by
  induction docs generalizing index as with
  | nil =>
    cases h
    exact .nil
  | cons x xs ih =>
    obtain ⟨a, ha, h⟩ := bind_ok_iff.mp h
    obtain ⟨rest, hrest, h⟩ := bind_ok_iff.mp h
    cases h
    obtain ⟨hx, hxs⟩ := List.forall_mem_cons.mp hdocs
    obtain ⟨hdx, hdxs⟩ := List.forall_mem_cons.mp hdistinct
    exact .cons (alike_writeAttribute _ x hx hdx ha) (ih (index + 1) hxs hdxs hrest)

/-- Writing what was read from a document that conforms gives the document again. -/
theorem alike_writeRuleSet {doc : Json} (hdoc : Conforms doc) (hdistinct : doc.Distinct)
    {set : RuleSet String} (h : readRuleSet doc = .ok set) :
    Alike (writeRuleSet set) (undecide doc) := by
  obtain ⟨members, rfl, hhas⟩ := hdoc
  obtain ⟨_, hattributes, attributes, rfl, ha⟩ :
      ∃ x, Json.get? "attributes" members = some x ∧ ArrayOf IsAttribute x := hhas.get rfl
  obtain ⟨_, hrules, rules, rfl, hr⟩ :
      ∃ x, Json.get? "rules" members = some x ∧ ArrayOf (Fits · (.node .rule)) x := hhas.get rfl
  rw [readRuleSet_eq hattributes hrules] at h
  obtain ⟨as, has, h⟩ := bind_ok_iff.mp h
  obtain ⟨rs, hrs, h⟩ := bind_ok_iff.mp h
  cases h
  have halikea := alike_writeAttributes _ 0 ha
    (fun x hx => (hdistinct.of_get hattributes).of_mem hx) has
  have haliker := alike_writeRules _ 0 rules hr
    (fun x hx => (hdistinct.of_get hrules).of_mem hx) hrs
  exact alike_of_has hhas (isNever_of_has hhas rfl) rfl
    ⟨⟨_, hattributes, rewrites_part (by simp) (alike_array halikea)⟩,
      ⟨_, hrules, rewrites_part (by simp) (alike_array haliker)⟩, trivial⟩

end Policy.Document
