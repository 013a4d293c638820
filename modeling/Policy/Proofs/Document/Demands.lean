import Policy.Document.Reading
import Policy.Document.Schema
import Policy.Proofs.Json.Distinct
import Mathlib.Data.List.Nodup

namespace Policy.Document

open Schema (Family)

/-! ## What is demanded of a document -/

/-- What a value of a document is read as. -/
inductive Content where
  | text
  | integer
  | method
  | kind
  | decision
  | params
  | node (family : Family)
  | record (form : List (String × Content))
  | list (item : Content)

/-- The members that are read from an object, in the order of reading. -/
abbrev Form := List (String × Content)

/-- The kinds of nodes of a family, each with the members that are read besides its type. -/
def kindsOf : Family → List (String × Form)
  | .term => [
    ("string", [("value", .text)]),
    ("number", [("value", .integer)]),
    ("attribute", [("name", .text)]),
    ("request", [("key", .text)]),
    ("rest", [("url", .text), ("method", .method), ("params", .params)]),
    ("coerce", [("from", .node .term), ("to", .kind)])] ++
    Schema.operators.map fun name => (name, [("lhs", .node .term), ("rhs", .node .term)])
  | .condition => [
    ("not", [("condition", .node .condition)]),
    ("and", [("lhs", .node .condition), ("rhs", .node .condition)]),
    ("or", [("lhs", .node .condition), ("rhs", .node .condition)]),
    ("equal", [("lhs", .node .term), ("rhs", .node .term)]),
    ("greater", [("lhs", .node .term), ("rhs", .node .term)])]
  | .rule => [
    ("always", [("decision", .decision)]),
    ("never", [("decision", .decision)]),
    ("when", [("condition", .node .condition), ("decision", .decision)]),
    ("branch", [("condition", .node .condition), ("true", .node .rule), ("false", .node .rule)]),
    ("majority", [("decision", .decision), ("rules", .list (.node .rule))]),
    ("all", [("decision", .decision), ("rules", .list (.node .rule))]),
    ("any", [("decision", .decision), ("rules", .list (.node .rule))]),
    ("one-of", [("rules", .list (.node .rule))])]

def Content.attribute : Content := .record [("name", .text), ("value", .node .term)]

def Content.ruleSet : Content :=
  .record [("attributes", .list .attribute), ("rules", .list (.node .rule))]

/-- What can be wrong with a single value. -/
inductive Want where
  | is (wanted : Wanted)
  | member (name : String)
  | kind (family : Family)
  | method
  | valueKind
  | decision

/-- A value of a document with its place, and what is wanted there. -/
structure Demand where
  path : Path
  value : Json
  want : Want

/-- The value is of the type that is wanted. -/
def Wanted.Holds : Wanted → Json → Prop
  | object, x => ∃ members, x = .object members
  | array, x => ∃ items, x = .array items
  | string, x | attributeName, x => ∃ text, x = .string text
  | integer, x => ∃ n : Policy.Number, x = .number (.whole n.val)

/-- The value has the defect that the problem tells of. -/
inductive Defect : Demand → Problem → Prop where
  | missing {path : Path} {members : List (String × Json)} {name : String}
      (h : name ∉ members.map Prod.fst) :
      Defect ⟨path, .object members, .member name⟩ (.missing path name)
  | shape {path : Path} {x : Json} {wanted : Wanted} (h : ¬ wanted.Holds x) :
      Defect ⟨path, x, .is wanted⟩ (.shape path wanted)
  | unknownNode {path : Path} {members : List (String × Json)} {kind : String} {family : Family}
      (htype : Json.get? "type" members = some (.string kind))
      (h : kind ∉ (kindsOf family).map Prod.fst) :
      Defect ⟨path, .object members, .kind family⟩ (.unknownNode path kind)
  | unknownMethod {path : Path} {name : String} (h : ∀ m : Method, m.name ≠ name) :
      Defect ⟨path, .string name, .method⟩ (.unknownMethod path name)
  | unknownKind {path : Path} {name : String} (h : ∀ k : Kind, k.name ≠ name) :
      Defect ⟨path, .string name, .valueKind⟩ (.unknownKind path name)
  | unknownDecision {path : Path} {name : String} (h : ∀ d : Decision, d.name ≠ name) :
      Defect ⟨path, .string name, .decision⟩ (.unknownDecision path name)

/-- What is wanted of a value itself, apart from its parts. -/
def Content.wants : Content → List Want
  | text => [.is .string]
  | integer => [.is .integer]
  | method => [.is .string, .method]
  | kind => [.is .string, .valueKind]
  | decision => [.is .string, .decision]
  | params | node _ | record _ => [.is .object]
  | list _ => [.is .array]

/-- What the items of an array are read as. -/
def Content.item? : Content → Option Content
  | list item => some item
  | _ => none

/-- The members of a node besides its type, which are those of its kind. -/
def formOf (family : Family) (members : List (String × Json)) : Form :=
  match Json.get? "type" members with
  | some (.string kind) => (Json.get? kind (kindsOf family)).getD []
  | _ => []

section Object

variable (path : Path) (members : List (String × Json)) (part : String → Content → List Demand)

/-- A member has to be there before it is looked into. -/
def fieldDemands (name : String) (content : Content) : List Demand :=
  ⟨path, .object members, .member name⟩ :: part name content

def formDemands : Form → List Demand
  | [] => []
  | (name, content) :: form => fieldDemands path members part name content ++ formDemands form

/-- What is demanded of the members of an object. -/
def objectDemands : Content → List Demand
  | .params => members.map fun m => ⟨path.field m.1, m.2, .is .attributeName⟩
  | .record form => formDemands path members part form
  | .node family =>
    fieldDemands path members part "type" .text ++ ⟨path, .object members, .kind family⟩ ::
      formDemands path members part (formOf family members)
  | _ => []

end Object

mutual

/-- All that is demanded of a document, in the order in which it is checked. -/
def demands (path : Path) : Json → Content → List Demand
  | .object members, content =>
    content.wants.map (⟨path, .object members, ·⟩) ++
      objectDemands path members (partDemands path members) content
  | .array items, content =>
    content.wants.map (⟨path, .array items, ·⟩) ++
      content.item?.elim [] (itemDemands path 0 items)
  | x, content => content.wants.map (⟨path, x, ·⟩)

def itemDemands (path : Path) (index : Nat) : List Json → Content → List Demand
  | [], _ => []
  | x :: xs, item => demands (path.item index) x item ++ itemDemands path (index + 1) xs item

/-- What is demanded of the member with a name, where there is one. -/
def partDemands (path : Path) : List (String × Json) → (name : String) → Content → List Demand
  | [], _, _ => []
  | (k, x) :: members, name, content =>
    if k = name then demands (path.field k) x content else partDemands path members name content

end

/-! ### Places -/

/-- The steps lead from a document to a value in it. -/
inductive Leads : Json → List Step → Json → Prop where
  | here {doc : Json} : Leads doc [] doc
  | field {members : List (String × Json)} {name : String} {x y : Json} {steps : List Step}
      (h : (name, x) ∈ members) (hsteps : Leads x steps y) :
      Leads (.object members) (.field name :: steps) y
  | item {items : List Json} {index : Nat} {x y : Json} {steps : List Step}
      (h : items[index]? = some x) (hsteps : Leads x steps y) :
      Leads (.array items) (.item index :: steps) y

/-- Steps that are taken from a place on. -/
def Path.extend (path : Path) (steps : List Step) : Path := ⟨path.root, path.steps ++ steps⟩

theorem Path.extend_nil (path : Path) : path.extend [] = path := by
  rw [extend, List.append_nil]

theorem Path.extend_field (path : Path) (name : String) (steps : List Step) :
    (path.field name).extend steps = path.extend (.field name :: steps) := by
  rw [extend, extend, field, List.append_assoc, List.singleton_append]

theorem Path.extend_item (path : Path) (index : Nat) (steps : List Step) :
    (path.item index).extend steps = path.extend (.item index :: steps) := by
  rw [extend, extend, item, List.append_assoc, List.singleton_append]

/-- Where no object repeats a name, steps lead to one value. -/
theorem Leads.unique {doc x y : Json} {steps : List Step} (hdoc : doc.Distinct)
    (hx : Leads doc steps x) (hy : Leads doc steps y) : x = y := by
  induction hx with
  | here =>
    cases hy with
    | here => rfl
  | field hmem hsteps ih =>
    cases hy with
    | field hmem' hsteps' =>
      have hsame := List.inj_on_of_nodup_map hdoc.1 hmem hmem' rfl
      cases hsame
      exact ih ((Json.distinctMembers_iff _).mp hdoc.2 _ hmem) hsteps'
  | item hitem hsteps ih =>
    cases hy with
    | item hitem' hsteps' =>
      cases hitem.symm.trans hitem'
      exact ih (hdoc.of_mem (List.mem_of_getElem? hitem)) hsteps'

/-- The demand is about a value of the document, at the place it names. -/
def Demand.Within (d : Demand) (path : Path) (doc : Json) : Prop :=
  ∃ steps, d.path = path.extend steps ∧ Leads doc steps d.value

section Within

variable {path : Path} {d : Demand} {x : Json}

theorem Demand.Within.here (want : Want) : Demand.Within ⟨path, x, want⟩ path x :=
  ⟨[], path.extend_nil.symm, .here⟩

theorem Demand.Within.field {members : List (String × Json)} {name : String}
    (h : d.Within (path.field name) x) (hmem : (name, x) ∈ members) :
    d.Within path (.object members) := by
  obtain ⟨steps, hpath, hleads⟩ := h
  exact ⟨_, hpath.trans (path.extend_field name steps), .field hmem hleads⟩

theorem Demand.Within.item {items : List Json} {index : Nat}
    (h : d.Within (path.item index) x) (hitem : items[index]? = some x) :
    d.Within path (.array items) := by
  obtain ⟨steps, hpath, hleads⟩ := h
  exact ⟨_, hpath.trans (path.extend_item index steps), .item hitem hleads⟩

theorem within_of_wants {content : Content} (h : d ∈ content.wants.map (⟨path, x, ·⟩)) :
    d.Within path x := by
  obtain ⟨want, -, rfl⟩ := List.mem_map.mp h
  exact .here want

/-- Demands on an object lie within it if those on its members do. -/
theorem within_of_objectDemands {members : List (String × Json)}
    {part : String → Content → List Demand} {content : Content}
    (hpart : ∀ name content, ∀ d ∈ part name content, d.Within path (.object members))
    (h : d ∈ objectDemands path members part content) : d.Within path (.object members) := by
  have hfield (name : String) (content : Content)
      (hd : d ∈ fieldDemands path members part name content) :
      d.Within path (.object members) := by
    rcases List.mem_cons.mp hd with rfl | hd
    · exact .here _
    · exact hpart name content d hd
  have hform (form : Form) (hd : d ∈ formDemands path members part form) :
      d.Within path (.object members) := by
    induction form with
    | nil => cases hd
    | cons field form ih =>
      rcases List.mem_append.mp hd with hd | hd
      · exact hfield _ _ hd
      · exact ih hd
  cases content with
  | params =>
    obtain ⟨m, hm, rfl⟩ := List.mem_map.mp h
    exact Demand.Within.field (.here _) hm
  | record form => exact hform form h
  | node family =>
    rcases List.mem_append.mp h with htype | hrest
    · exact hfield _ _ htype
    · rcases List.mem_cons.mp hrest with rfl | hrest
      · exact .here _
      · exact hform _ hrest
  | _ => cases h

end Within

mutual

theorem demands_within {path : Path} (doc : Json) (content : Content) :
    ∀ d ∈ demands path doc content, d.Within path doc := by
  intro d hd
  cases doc with
  | object members =>
    rw [demands] at hd
    rcases List.mem_append.mp hd with hd | hd
    · exact within_of_wants hd
    · refine within_of_objectDemands (fun name content d hd => ?_) hd
      obtain ⟨x, hx, hwithin⟩ := partDemands_within members name content d hd
      exact hwithin.field hx
  | array items =>
    rw [demands] at hd
    rcases List.mem_append.mp hd with hd | hd
    · exact within_of_wants hd
    · cases hitem : content.item? with
      | none =>
        rw [hitem] at hd
        cases hd
      | some item =>
        rw [hitem] at hd
        obtain ⟨i, x, hx, hwithin⟩ := itemDemands_within 0 items item d hd
        rw [Nat.zero_add] at hwithin
        exact hwithin.item hx
  | _ => exact within_of_wants hd

theorem itemDemands_within {path : Path} (index : Nat) (items : List Json) (item : Content) :
    ∀ d ∈ itemDemands path index items item,
      ∃ i x, items[i]? = some x ∧ d.Within (path.item (index + i)) x := by
  intro d hd
  cases items with
  | nil => cases hd
  | cons x xs =>
    rw [itemDemands] at hd
    rcases List.mem_append.mp hd with hd | hd
    · exact ⟨0, x, rfl, demands_within x item d hd⟩
    · obtain ⟨i, y, hy, hwithin⟩ := itemDemands_within (index + 1) xs item d hd
      rw [Nat.add_right_comm] at hwithin
      exact ⟨i + 1, y, hy, hwithin⟩

theorem partDemands_within {path : Path} (members : List (String × Json)) (name : String)
    (content : Content) :
    ∀ d ∈ partDemands path members name content,
      ∃ x, (name, x) ∈ members ∧ d.Within (path.field name) x := by
  intro d hd
  cases members with
  | nil => cases hd
  | cons m members =>
    obtain ⟨k, x⟩ := m
    rw [partDemands] at hd
    split at hd
    · next hk =>
      subst hk
      exact ⟨x, List.mem_cons_self, demands_within x content d hd⟩
    · obtain ⟨y, hy, hwithin⟩ := partDemands_within members name content d hd
      exact ⟨y, List.mem_cons_of_mem _ hy, hwithin⟩

end

end Policy.Document
