import Policy.Document.Schema
import Policy.Proofs.Json.Distinct

namespace Policy.Document.Schema

/-! ## Objects with the members of a record -/

/-- The members of an object are those of a record, each one as the record has it. -/
structure Has (record : List (String × (Json → Prop))) (members : List (String × Json)) :
    Prop where
  within : ∀ m ∈ members, ∃ P, Json.get? m.1 record = some P ∧ P m.2
  complete : ∀ name, Json.get? name members = none → Json.get? name record = none

namespace Has

variable {record : List (String × (Json → Prop))} {members : List (String × Json)}
  {name : String}

theorem get (h : Has record members) {P : Json → Prop} (hP : Json.get? name record = some P) :
    ∃ x, Json.get? name members = some x ∧ P x := by
  cases hx : Json.get? name members with
  | none =>
    rw [h.complete name hx] at hP
    cases hP
  | some x =>
    obtain ⟨Q, hQ, hq⟩ := h.within _ (Json.mem_of_get hx)
    cases hQ.symm.trans hP
    exact ⟨x, rfl, hq⟩

theorem get_none (h : Has record members) (hname : Json.get? name record = none) :
    Json.get? name members = none := by
  cases hx : Json.get? name members with
  | none => rfl
  | some x =>
    obtain ⟨Q, hQ, -⟩ := h.within _ (Json.mem_of_get hx)
    rw [hname] at hQ
    cases hQ

theorem mem_names (h : Has record members) {m : String × Json} (hm : m ∈ members) :
    m.1 ∈ record.map Prod.fst := by
  obtain ⟨P, hP, -⟩ := h.within m hm
  exact List.mem_map_of_mem (Json.mem_of_get hP)

end Has

def Object (record : List (String × (Json → Prop))) (doc : Json) : Prop :=
  ∃ members, doc = .object members ∧ Has record members

def ArrayOf (P : Json → Prop) (doc : Json) : Prop := ∃ items, doc = .array items ∧ ∀ x ∈ items, P x

/-! ## Documents of a shape -/

/-- Whether a number is one without a fraction. -/
def isInteger : Json.Number → Bool
  | .whole _ => true
  | .float f => f.isWhole

mutual

/-- A document is of a shape. A node takes exactly one of the forms of its family. -/
def Fits : Json → Shape → Prop
  | .string _, .text => True
  | .number n, .integer => isInteger n
  | .string text, .name => isName text
  | .string text, .word options => text ∈ options
  | .object members, .names => ∀ m ∈ members, ∃ ref, m.2 = .string ref ∧ isName ref
  | .array items, .nodes family => FitItems items family
  | .object members, .node family =>
    ∃! form, form ∈ family.forms ∧ FitMembers members form ∧
      ∀ name, Json.get? name members = none → Json.get? name form = none
  | _, _ => False

def FitItems : List Json → Family → Prop
  | [], _ => True
  | x :: xs, family => Fits x (.node family) ∧ FitItems xs family

def FitMembers : List (String × Json) → Record → Prop
  | [], _ => True
  | (name, x) :: members, form =>
    (∃ shape, Json.get? name form = some shape ∧ Fits x shape) ∧ FitMembers members form

end

/-- The members of a form, each one with what it has to be. -/
def fields (form : Record) : List (String × (Json → Prop)) :=
  form.map fun field => (field.1, fun x => Fits x field.2)

theorem get_fields (name : String) (form : Record) :
    Json.get? name (fields form) = (Json.get? name form).map fun shape x => Fits x shape :=
  Json.get_map (fun _ shape x => Fits x shape) name form

theorem fitItems_iff (items : List Json) (family : Family) :
    FitItems items family ↔ ∀ x ∈ items, Fits x (.node family) := by
  induction items with
  | nil => simp [FitItems]
  | cons x xs ih => rw [FitItems, List.forall_mem_cons, ih]

theorem fitMembers_iff (members : List (String × Json)) (form : Record) :
    FitMembers members form ↔
      ∀ m ∈ members, ∃ shape, Json.get? m.1 form = some shape ∧ Fits m.2 shape := by
  induction members with
  | nil => simp [FitMembers]
  | cons m members ih =>
    obtain ⟨name, x⟩ := m
    rw [FitMembers, List.forall_mem_cons, ih]

theorem has_fields_iff (form : Record) (members : List (String × Json)) :
    Has (fields form) members ↔ FitMembers members form ∧
      ∀ name, Json.get? name members = none → Json.get? name form = none := by
  rw [fitMembers_iff]
  constructor
  · intro h
    refine ⟨fun m hm => ?_, fun name hname => ?_⟩
    · obtain ⟨P, hP, hm⟩ := h.within m hm
      rw [get_fields, Option.map_eq_some_iff] at hP
      obtain ⟨shape, hshape, rfl⟩ := hP
      exact ⟨shape, hshape, hm⟩
    · have hnone := h.complete name hname
      rwa [get_fields, Option.map_eq_none_iff] at hnone
  · rintro ⟨hwithin, hcomplete⟩
    refine ⟨fun m hm => ?_, fun name hname => ?_⟩
    · obtain ⟨shape, hshape, hm⟩ := hwithin m hm
      exact ⟨fun x => Fits x shape, by rw [get_fields, hshape]; rfl, hm⟩
    · rw [get_fields, hcomplete name hname]
      rfl

section Atoms

variable {doc : Json}

theorem Fits.text (h : Fits doc .text) : ∃ text, doc = .string text := by
  cases doc with
  | string text => exact ⟨text, rfl⟩
  | _ => simp [Fits] at h

theorem Fits.name (h : Fits doc .name) : ∃ text, doc = .string text ∧ isName text := by
  cases doc with
  | string text => exact ⟨text, rfl, by simpa [Fits] using h⟩
  | _ => simp [Fits] at h

theorem Fits.word {options : List String} (h : Fits doc (.word options)) :
    ∃ text ∈ options, doc = .string text := by
  cases doc with
  | string text => exact ⟨text, by simpa [Fits] using h, rfl⟩
  | _ => simp [Fits] at h

theorem Fits.names (h : Fits doc .names) : ∃ params : List (String × String),
    doc = .object (params.map fun (name, ref) => (name, .string ref)) := by
  cases doc with
  | object members =>
    simp only [Fits] at h
    induction members with
    | nil => exact ⟨[], rfl⟩
    | cons m members ih =>
      obtain ⟨⟨ref, href, -⟩, hrest⟩ := List.forall_mem_cons.mp h
      obtain ⟨params, hparams⟩ := ih hrest
      obtain ⟨name, x⟩ := m
      cases href
      cases hparams
      exact ⟨(name, ref) :: params, rfl⟩
  | _ => simp [Fits] at h

theorem Fits.nodes {family : Family} (h : Fits doc (.nodes family)) :
    ∃ items, doc = .array items ∧ ∀ x ∈ items, Fits x (.node family) := by
  cases doc with
  | array items => exact ⟨items, rfl, (fitItems_iff items family).mp h⟩
  | _ => simp [Fits] at h

end Atoms

namespace Has

variable {form : Record} {members : List (String × Json)} (name : String)

theorem field (h : Has (fields form) members) {shape : Shape}
    (hname : Json.get? name form = some shape) :
    ∃ x, Json.get? name members = some x ∧ Fits x shape := by
  apply h.get (P := fun x => Fits x shape)
  rw [get_fields, hname]
  rfl

theorem text (h : Has (fields form) members) (hname : Json.get? name form = some .text) :
    ∃ text, Json.get? name members = some (.string text) := by
  obtain ⟨_, hx, hfits⟩ := h.field name hname
  obtain ⟨text, rfl⟩ := hfits.text
  exact ⟨text, hx⟩

theorem ref (h : Has (fields form) members) (hname : Json.get? name form = some .name) :
    ∃ ref, Json.get? name members = some (.string ref) := by
  obtain ⟨_, hx, hfits⟩ := h.field name hname
  obtain ⟨ref, rfl, -⟩ := hfits.name
  exact ⟨ref, hx⟩

theorem word (h : Has (fields form) members) {options : List String}
    (hname : Json.get? name form = some (.word options)) :
    ∃ text ∈ options, Json.get? name members = some (.string text) := by
  obtain ⟨_, hx, hfits⟩ := h.field name hname
  obtain ⟨text, htext, rfl⟩ := hfits.word
  exact ⟨text, htext, hx⟩

theorem params (h : Has (fields form) members) (hname : Json.get? name form = some .names) :
    ∃ params : List (String × String), Json.get? name members =
      some (.object (params.map fun (name, ref) => (name, .string ref))) := by
  obtain ⟨_, hx, hfits⟩ := h.field name hname
  obtain ⟨params, rfl⟩ := hfits.names
  exact ⟨params, hx⟩

theorem items (h : Has (fields form) members) {family : Family}
    (hname : Json.get? name form = some (.nodes family)) :
    ∃ items, Json.get? name members = some (.array items) ∧
      ∀ x ∈ items, Fits x (.node family) := by
  obtain ⟨_, hx, hfits⟩ := h.field name hname
  obtain ⟨items, rfl, hitems⟩ := hfits.nodes
  exact ⟨items, hx, hitems⟩

end Has

/-! ## Forms exclude each other

The forms of a family have different words for their kind. -/

/-- The words that tell a form. -/
def kinds (form : Record) : List String :=
  match Json.get? "type" form with
  | some (.word options) => options
  | _ => []

theorem eq_of_kind {family : Family} {form other : Record} {kind : String}
    (hform : form ∈ family.forms) (hother : other ∈ family.forms) (h : kind ∈ kinds form)
    (h' : kind ∈ kinds other) : form = other := by
  have hdisjoint : ∀ form ∈ family.forms, ∀ other ∈ family.forms,
      (∃ kind ∈ kinds form, kind ∈ kinds other) → form = other := by
    cases family with
    | _ => decide
  exact hdisjoint form hform other hother ⟨kind, h, h'⟩

theorem exists_kind {family : Family} {form : Record} {members : List (String × Json)}
    (hform : form ∈ family.forms) (h : Has (fields form) members) :
    ∃ kind ∈ kinds form, Json.get? "type" members = some (.string kind) := by
  have hword : ∀ form ∈ family.forms, Json.get? "type" form = some (.word (kinds form)) := by
    cases family with
    | _ => decide
  exact h.word "type" (hword form hform)

theorem form_unique {family : Family} {form other : Record} {members : List (String × Json)}
    (hform : form ∈ family.forms) (hother : other ∈ family.forms)
    (h : Has (fields form) members) (h' : Has (fields other) members) : form = other := by
  obtain ⟨kind, hkind, htype⟩ := exists_kind hform h
  obtain ⟨kind', hkind', htype'⟩ := exists_kind hother h'
  cases htype.symm.trans htype'
  exact eq_of_kind hform hother hkind hkind'

/-- A node is an object with the members of some form of its family. -/
theorem fits_node_iff (doc : Json) (family : Family) :
    Fits doc (.node family) ↔ ∃ form ∈ family.forms, Object (fields form) doc := by
  cases doc with
  | object members =>
    simp only [Fits, ← has_fields_iff, Object, Json.object.injEq, exists_eq_left']
    constructor
    · rintro ⟨form, ⟨hform, hhas⟩, -⟩
      exact ⟨form, hform, hhas⟩
    · rintro ⟨form, hform, hhas⟩
      exact ⟨form, ⟨hform, hhas⟩, fun other h => form_unique h.1 hform h.2 hhas⟩
  | _ => simp [Fits, Object]

/-! ## Judging is fitting -/

theorem get_judgeMembers (name : String) (members : List (String × Json)) :
    Json.get? name (judgeMembers members) = (Json.get? name members).map judge := by
  induction members with
  | nil => rfl
  | cons m members ih =>
    obtain ⟨k, x⟩ := m
    rw [judgeMembers, Json.get?, Json.get?]
    by_cases hk : k = name
    · rw [if_pos hk, if_pos hk]
      rfl
    · rw [if_neg hk, if_neg hk, ih]

theorem names_judgeMembers (members : List (String × Json)) :
    (judgeMembers members).map Prod.fst = members.map Prod.fst := by
  induction members with
  | nil => rfl
  | cons m members ih =>
    obtain ⟨k, x⟩ := m
    rw [judgeMembers, List.map_cons, List.map_cons, ih]

theorem holds_judgeObject (members : List (String × Judged)) (family : Family) :
    (judgeObject members).holds family = family.forms.any (admits · members) := by
  cases family with
  | _ => rfl

theorem holds_both (a b : Membership) (family : Family) :
    (a.both b).holds family = (a.holds family && b.holds family) := by
  cases family with
  | _ => rfl

theorem holds_everywhere (family : Family) : Membership.everywhere.holds family = true := by
  cases family with
  | _ => rfl

theorem holds_nowhere (family : Family) : Membership.nowhere.holds family = false := by
  cases family with
  | _ => rfl

/-- A record admits an object exactly if the object has the members of the record. -/
theorem admits_iff {form : Record} {members : List (String × Json)}
    (hform : (form.map Prod.fst).Nodup) (hmembers : (members.map Prod.fst).Nodup)
    (h : ∀ m ∈ members, ∀ shape, Fits m.2 shape ↔ shape.admits (judge m.2)) :
    admits form (judgeMembers members) ↔ Has (fields form) members := by
  have hnames : ∀ name, (∃ m ∈ judgeMembers members, m.1 = name) ↔
      name ∈ members.map Prod.fst := by
    intro name
    rw [← names_judgeMembers, List.mem_map]
  simp only [admits, Bool.and_eq_true, List.all_eq_true, get_judgeMembers, Option.any_map,
    Option.any_eq_true, List.any_eq_true, decide_eq_true_eq]
  constructor
  · rintro ⟨hall, hknown⟩
    refine (has_fields_iff form members).mpr ⟨(fitMembers_iff members form).mpr ?_, ?_⟩
    · intro m hm
      have hmem : m.1 ∈ members.map Prod.fst := List.mem_map_of_mem hm
      obtain ⟨judged, hjudged, hname⟩ := (hnames m.1).mpr hmem
      obtain ⟨field, hfield, hfieldname⟩ := hknown judged hjudged
      obtain ⟨x, hx, hadmits⟩ := hall field hfield
      rw [hfieldname, hname, Json.get_of_mem hmembers hm] at hx
      cases hx
      refine ⟨field.2, ?_, (h m hm field.2).mpr hadmits⟩
      rw [← hname, ← hfieldname]
      exact Json.get_of_mem hform hfield
    · intro name hname
      rw [Json.get_eq_none_iff]
      intro hmem
      obtain ⟨field, hfield, rfl⟩ := List.mem_map.mp hmem
      obtain ⟨x, hx, -⟩ := hall field hfield
      rw [hname] at hx
      cases hx
  · intro hhas
    constructor
    · intro field hfield
      have hget : Json.get? field.1 (fields form) = some fun x => Fits x field.2 := by
        rw [get_fields, Json.get_of_mem hform hfield]
        rfl
      obtain ⟨x, hx, hfits⟩ := hhas.get hget
      exact ⟨x, hx, (h _ (Json.mem_of_get hx) _).mp hfits⟩
    · intro judged hjudged
      have hmem := (hnames judged.1).mp ⟨judged, hjudged, rfl⟩
      obtain ⟨m, hm, hname⟩ := List.mem_map.mp hmem
      have hfield := hhas.mem_names hm
      rw [fields, List.map_map] at hfield
      obtain ⟨field, hfield, hfieldname⟩ := List.mem_map.mp hfield
      exact ⟨field, hfield, hfieldname.trans hname⟩

theorem nodup_forms {family : Family} {form : Record} (h : form ∈ family.forms) :
    (form.map Prod.fst).Nodup := by
  have hall : ∀ form ∈ family.forms, (form.map Prod.fst).Nodup := by
    cases family with
    | _ => decide
  exact hall form h

mutual

/-- In a document without repeated names, judging tells what fits. -/
theorem fits_iff (doc : Json) (h : doc.Distinct) (shape : Shape) :
    Fits doc shape ↔ shape.admits (judge doc) := by
  match doc with
  | .null | .bool _ | .string _ =>
    cases shape with
    | _ => simp [Fits, Shape.admits, judge, holds_nowhere]
  | .number n =>
    cases n with
    | _ =>
      cases shape with
      | _ => simp [Fits, Shape.admits, judge, holds_nowhere, isInteger]
  | .array items =>
    cases shape with
    | nodes family => exact fitItems_iff_judgeItems items h family
    | _ => simp [Fits, Shape.admits, judge, holds_nowhere]
  | .object members =>
    cases shape with
    | node family =>
      have hmembers := fits_members_iff members h.2
      rw [fits_node_iff]
      simp only [Object, Json.object.injEq, exists_eq_left', Shape.admits, judge,
        holds_judgeObject, List.any_eq_true]
      refine exists_congr fun form => and_congr_right fun hform => ?_
      exact (admits_iff (nodup_forms hform) h.1 hmembers).symm
    | names =>
      simp only [Fits, Shape.admits, judge, List.all_eq_true]
      refine forall₂_congr fun m hm => ?_
      cases m.2 with
      | _ => simp
    | _ => simp [Fits, Shape.admits, judge, holds_nowhere]

theorem fitItems_iff_judgeItems (items : List Json) (h : Json.DistinctItems items)
    (family : Family) : FitItems items family ↔ (judgeItems items).holds family := by
  match items with
  | [] => simp [FitItems, judgeItems, holds_everywhere]
  | x :: xs =>
    rw [FitItems, judgeItems, holds_both, Bool.and_eq_true, fits_iff x h.1,
      fitItems_iff_judgeItems xs h.2]
    rfl

theorem fits_members_iff (members : List (String × Json)) (h : Json.DistinctMembers members) :
    ∀ m ∈ members, ∀ shape, Fits m.2 shape ↔ shape.admits (judge m.2) := by
  match members with
  | [] => simp
  | (name, x) :: members =>
    exact List.forall_mem_cons.mpr ⟨fits_iff x h.1, fits_members_iff members h.2⟩

end

/-! ## Documents that conform to the schema -/

/-- A name with a term. -/
def IsAttribute : Json → Prop := Object [("name", (Fits · .name)), ("value", (Fits · (.node .term)))]

/-- A document has what the schema of rule sets asks for, and nothing else. -/
def Conforms : Json → Prop :=
  Object [("attributes", ArrayOf IsAttribute), ("rules", ArrayOf (Fits · (.node .rule)))]

theorem checkItems_eq_nil_iff {item : Check} {P : Json → Prop} {doc : Json}
    (h : ∀ items, doc = .array items → ∀ x ∈ items, (item x = [] ↔ P x)) :
    checkItems item doc = [] ↔ ArrayOf P doc := by
  cases doc with
  | array items =>
    simp only [checkItems, List.flatMap_eq_nil_iff, ArrayOf, Json.array.injEq, exists_eq_left']
    exact forall₂_congr (h items rfl)
  | _ => simp [checkItems, ArrayOf]

/-- A record is kept exactly by the objects that have its members. -/
theorem checkRecord_eq_nil_iff (record : List (String × Check)) (doc : Json) :
    checkRecord record doc = [] ↔
      Object (record.map fun field => (field.1, fun x => field.2 x = [])) doc := by
  have hget := fun name =>
    Json.get_map (fun _ (check : Check) x => check x = []) name record
  cases doc with
  | object members =>
    simp only [checkRecord, Object, Json.object.injEq, exists_eq_left', List.append_eq_nil_iff,
      List.map_eq_nil_iff, List.filter_eq_nil_iff, List.flatMap_eq_nil_iff, Option.isNone_iff_eq_none]
    constructor
    · rintro ⟨⟨habsent, hwithin⟩, hextra⟩
      have hknown : ∀ m ∈ members, Json.get? m.1 record ≠ none := by
        split at hextra
        · next hempty => simpa using hempty
        · cases hextra
      refine ⟨fun m hm => ?_, fun name hname => ?_⟩
      · obtain ⟨check, hcheck⟩ := Option.ne_none_iff_exists'.mp (hknown m hm)
        have hm' := hwithin m hm
        rw [hcheck] at hm'
        exact ⟨fun x => check x = [], by rw [hget, hcheck]; rfl, hm'⟩
      · rw [hget, Option.map_eq_none_iff, Json.get_eq_none_iff]
        intro hmem
        obtain ⟨field, hfield, rfl⟩ := List.mem_map.mp hmem
        exact habsent field hfield hname
    · intro h
      have hcheck : ∀ m ∈ members, ∃ check, Json.get? m.1 record = some check ∧ check m.2 = [] := by
        intro m hm
        obtain ⟨P, hP, hm⟩ := h.within m hm
        rw [hget, Option.map_eq_some_iff] at hP
        obtain ⟨check, hcheck, rfl⟩ := hP
        exact ⟨check, hcheck, hm⟩
      refine ⟨⟨fun field hfield hnone => ?_, fun m hm => ?_⟩, ?_⟩
      · have hrecord := h.complete field.1 hnone
        rw [hget, Option.map_eq_none_iff, Json.get_eq_none_iff] at hrecord
        exact hrecord (List.mem_map_of_mem hfield)
      · obtain ⟨check, hget, hm⟩ := hcheck m hm
        rw [hget]
        exact hm
      · have hempty : members.filter (fun m => (Json.get? m.1 record).isNone) = [] := by
          refine List.filter_eq_nil_iff.mpr fun m hm => ?_
          obtain ⟨check, hget, -⟩ := hcheck m hm
          simp [hget]
        rw [hempty]
        rfl
  | _ => simp [checkRecord, Object]

/-- What a record asks of its members can be replaced by what comes to the same for an object. -/
theorem Has.imp {record meant : List (String × (Json → Prop))} {members : List (String × Json)}
    (hmeant : List.Forall₂ (fun field other => field.1 = other.1 ∧
      ∀ m ∈ members, field.2 m.2 → other.2 m.2) record meant)
    (h : Has record members) : Has meant members := by
  have hget := Json.get_of_forall₂ (R := fun (P Q : Json → Prop) => ∀ m ∈ members, P m.2 → Q m.2) hmeant
  constructor
  · intro m hm
    obtain ⟨P, hP, hm'⟩ := h.within m hm
    have hrel := hget m.1
    rw [hP] at hrel
    generalize Json.get? m.1 meant = found at hrel ⊢
    cases hrel with
    | some himp => exact ⟨_, rfl, himp m hm hm'⟩
  · intro name hname
    have hrel := hget name
    rw [h.complete name hname] at hrel
    generalize Json.get? name meant = found at hrel ⊢
    cases hrel
    rfl

theorem object_congr {record meant : List (String × (Json → Prop))} {doc : Json}
    (h : ∀ members, doc = .object members →
      List.Forall₂ (fun field other => field.1 = other.1 ∧
        ∀ m ∈ members, (field.2 m.2 ↔ other.2 m.2)) record meant) :
    Object record doc ↔ Object meant doc := by
  constructor
  · rintro ⟨members, rfl, hhas⟩
    refine ⟨members, rfl, hhas.imp ((h members rfl).imp ?_)⟩
    exact fun _ _ hfield => ⟨hfield.1, fun m hm => (hfield.2 m hm).mp⟩
  · rintro ⟨members, rfl, hhas⟩
    refine ⟨members, rfl, hhas.imp ((h members rfl).flip.imp ?_)⟩
    exact fun _ _ hfield => ⟨hfield.1.symm, fun m hm => (hfield.2 m hm).mpr⟩

theorem checkName_eq_nil_iff (doc : Json) : checkName doc = [] ↔ Fits doc .name := by
  cases doc with
  | _ => simp [checkName, Fits]

theorem checkNode_eq_nil_iff {doc : Json} (h : doc.Distinct) (family : Family) :
    checkNode family doc = [] ↔ Fits doc (.node family) := by
  rw [fits_iff doc h, checkNode]
  show _ ↔ (judge doc).whole.holds family
  split
  · next hholds => simp [hholds]
  · next hholds => simp [hholds]

theorem checkAttribute_eq_nil_iff {doc : Json} (h : doc.Distinct) :
    checkAttribute doc = [] ↔ IsAttribute doc := by
  rw [checkAttribute, checkRecord_eq_nil_iff]
  refine object_congr ?_
  rintro members rfl
  have hmembers := (Json.distinctMembers_iff members).mp h.2
  refine .cons ⟨rfl, fun m hm => checkName_eq_nil_iff m.2⟩ (.cons ⟨rfl, fun m hm => ?_⟩ .nil)
  exact checkNode_eq_nil_iff (hmembers m hm) .term

/-- The schema is kept exactly by the documents that conform to it. -/
theorem check_eq_nil_iff {doc : Json} (h : doc.Distinct) : check doc = [] ↔ Conforms doc := by
  rw [check, checkRecord_eq_nil_iff]
  refine object_congr ?_
  rintro members rfl
  have hmembers := (Json.distinctMembers_iff members).mp h.2
  have hitems : ∀ m ∈ members, ∀ items, m.2 = .array items → ∀ x ∈ items, x.Distinct := by
    intro m hm items hitems
    have hdistinct := hmembers m hm
    rw [hitems] at hdistinct
    exact (Json.distinctItems_iff items).mp hdistinct
  refine .cons ⟨rfl, fun m hm => ?_⟩ (.cons ⟨rfl, fun m hm => ?_⟩ .nil)
  · refine checkItems_eq_nil_iff fun items heq x hx => ?_
    exact checkAttribute_eq_nil_iff (hitems m hm items heq x hx)
  · refine checkItems_eq_nil_iff fun items heq x hx => ?_
    exact checkNode_eq_nil_iff (hitems m hm items heq x hx) .rule

end Policy.Document.Schema
