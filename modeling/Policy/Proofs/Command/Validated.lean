import Policy.Proofs.Command.Interchange
import Policy.Proofs.Document.Numbers

namespace Policy.Document

open Schema

/-! ## Names that are defined -/

def itemsAt (name : String) : Json → List Json
  | .object members =>
    match Json.get? name members with
    | some (.array items) => items
    | _ => []
  | _ => []

def textAt? (name : String) : Json → Option String
  | .object members => (Json.get? name members).bind textOf?
  | _ => none

/-- The names of the attributes that a document defines. -/
def definedNames (doc : Json) : List String :=
  (itemsAt "attributes" doc).filterMap (textAt? "name")

theorem name_of_readAttribute {path : Path} {doc : Json} {a : Attribute String}
    (h : readAttribute path doc = .ok a) : textAt? "name" doc = some a.name := by
  rw [readAttribute] at h
  obtain ⟨name, hname, h⟩ := bind_ok_iff.mp h
  obtain ⟨value, -, h⟩ := bind_ok_iff.mp h
  obtain ⟨term, -, h⟩ := bind_ok_iff.mp h
  cases h
  obtain ⟨members, rfl, hget⟩ := requiredText_eq_ok hname
  simp only [textAt?, hget, Option.bind_some, textOf?]

theorem names_of_readAttributes {path : Path} {index : Nat} {docs : List Json}
    {as : List (Attribute String)} (h : readAttributes path index docs = .ok as) :
    as.map (·.name) = docs.filterMap (textAt? "name") := by
  induction docs generalizing index as with
  | nil =>
    cases h
    rfl
  | cons doc docs ih =>
    obtain ⟨a, ha, h⟩ := bind_ok_iff.mp h
    obtain ⟨more, hmore, h⟩ := bind_ok_iff.mp h
    cases h
    rw [List.map_cons, ih hmore, List.filterMap_cons_some (name_of_readAttribute ha)]

theorem names_of_readRuleSet {doc : Json} {set : RuleSet String}
    (h : readRuleSet doc = .ok set) : set.names = definedNames doc := by
  rw [readRuleSet] at h
  obtain ⟨items, hitems, h⟩ := bind_ok_iff.mp h
  obtain ⟨as, has, h⟩ := bind_ok_iff.mp h
  obtain ⟨rules, -, h⟩ := bind_ok_iff.mp h
  obtain ⟨rs, -, h⟩ := bind_ok_iff.mp h
  cases h
  obtain ⟨members, rfl, hget⟩ := requiredItems_eq_ok hitems
  rw [RuleSet.names, names_of_readAttributes has]
  simp only [definedNames, itemsAt, hget]

/-! ## Documents without objections -/

/-- A document describes a rule set that can be linked. -/
structure Valid (doc : Json) : Prop where
  conforms : Conforms doc
  numbers : ∀ n ∈ numbers doc, isNumber n.2
  distinct : (definedNames doc).Nodup
  defined : ∀ name ∈ references doc, name ∈ definedNames doc

theorem exists_read_of_conforms {doc : Json} (h : Conforms doc)
    (hnumbers : ∀ n ∈ numbers doc, isNumber n.2) :
    ∃ set, readRuleSet doc = .ok set ∧ set.refs = references doc := by
  have htold := goesThrough_ruleSet h
  have hnone : (numbers doc).find? (fun n => !isNumber n.2) = none := by
    rw [List.find?_eq_none]
    intro n hn
    rw [hnumbers n hn]
    exact Bool.false_ne_true
  rw [numbers] at hnone
  rwa [GoesThrough, Told, hnone] at htold

theorem numbers_of_readRuleSet {doc : Json} (h : Conforms doc) {set : RuleSet String}
    (hset : readRuleSet doc = .ok set) : ∀ n ∈ numbers doc, isNumber n.2 := by
  have htold := goesThrough_ruleSet h
  rw [GoesThrough, Told, ← numbers, hset] at htold
  cases hfind : (numbers doc).find? fun n => !isNumber n.2 with
  | some n =>
    rw [hfind] at htold
    cases htold
  | none => simpa using hfind

theorem Valid.read {doc : Json} (h : Valid doc) :
    ∃ set, readRuleSet doc = .ok set ∧ Succeeds set.link := by
  obtain ⟨set, hset, hrefs⟩ := exists_read_of_conforms h.conforms h.numbers
  refine ⟨set, hset, set.succeeds_link_iff.mpr ?_⟩
  rw [names_of_readRuleSet hset, hrefs]
  exact ⟨h.distinct, h.defined⟩

/-- Nothing is held against exactly the documents that are valid. -/
theorem objections_eq_nil_iff {doc : Json} (hdistinct : doc.Distinct) :
    objections doc = [] ↔ Valid doc := by
  have hcheck := check_eq_nil_iff hdistinct
  constructor
  · intro h
    unfold objections at h
    split at h
    · cases h
    · next hschema =>
      split at h
      · cases h
      · next set hset =>
        split at h
        · cases h
        · next linked hlink =>
          have hconforms := hcheck.mp hschema
          have hnumbers := numbers_of_readRuleSet hconforms hset
          obtain ⟨other, hother, hrefs⟩ := exists_read_of_conforms hconforms hnumbers
          cases hset.symm.trans hother
          obtain ⟨hnodup, hdefined⟩ := set.succeeds_link_iff.mp ⟨linked, hlink⟩
          rw [names_of_readRuleSet hset] at hnodup hdefined
          rw [hrefs] at hdefined
          exact ⟨hconforms, hnumbers, hnodup, hdefined⟩
  · intro h
    obtain ⟨set, hset, linked, hlink⟩ := h.read
    simp only [objections, hcheck.mpr h.conforms, hset, hlink]

end Policy.Document

namespace Policy.Command

open Document Schema

/-! ## Validating and evaluating files with documents -/

variable {disk : Disk} {file text : String} {doc : Json}

theorem status_validated_iff [Wording] (i : Invocation) (doc : Json) :
    (i.validated doc).status = 0 ↔ objections doc = [] := by
  unfold Invocation.validated
  cases objections doc with
  | nil => simp
  | cons x xs => simp

theorem loadPolicy_of_valid (hname : namesDocument file) (hdisk : disk file = .ok text)
    (hread : Json.read text = some doc) (h : Valid doc) :
    ∃ set, loadPolicy disk file = .ok set := by
  obtain ⟨set, hset, linked, hlink⟩ := h.read
  refine ⟨linked, ?_⟩
  rw [loadPolicy, if_pos hname]
  simp only [loadDocument, loadText, hdisk, ok_bind, Document.read, hread, hset, hlink]

/-- Where the schema is kept, only a number can be held against a document as such: reading fails
at the first one, in the order of reading, that is no whole number of 64 bits. Files are validated
exactly if their documents keep the schema, all numbers are such, attributes have names of their
own and references are to these names. Those whose names end as names of documents do are then
loaded for evaluation. -/
theorem schema_agrees_with_reading [Wording] (doc : Json) :
    (doc.Distinct → (check doc = [] ↔ Conforms doc)) ∧
    (Conforms doc →
      match (numbers doc).find? fun n => !isNumber n.2 with
      | some (place, _) => ∃ problem, readRuleSet doc = .error problem ∧
          problem = .shape place .integer ∧
          problem.message = place.text ++ ": expected a 64-bit integer"
      | none => ∃ set, readRuleSet doc = .ok set) ∧
    ∀ (disk : Disk) (network : Http.Network) (i : Invocation) (settings : Settings)
      (file text : String), disk file = .ok text → Json.read text = some doc →
      i.task = .validate file → loadSettings disk i.config = .ok settings →
        ((i.run disk network).status = 0 ↔ Valid doc) ∧
        (namesDocument file → (i.run disk network).status = 0 →
          ∃ set, loadPolicy disk file = .ok set) := by
  refine ⟨check_eq_nil_iff, fun hconforms => ?_, ?_⟩
  · have htold := goesThrough_ruleSet hconforms
    rw [GoesThrough, Told, ← numbers] at htold
    split
    · next place _ hfind =>
      rw [hfind] at htold
      refine ⟨_, htold, rfl, ?_⟩
      rw [Problem.message, String.append_assoc]
      rfl
    · next hfind =>
      rw [hfind] at htold
      obtain ⟨set, hset, -⟩ := htold
      exact ⟨set, hset⟩
  · intro disk network i settings file text hdisk hread htask hsettings
    have hjson : loadJson disk file = .ok doc := by
      simp only [loadJson, loadText, hdisk, ok_bind, hread]
    have hstatus : (i.run disk network).status = 0 ↔ Valid doc := by
      rw [Invocation.run_validating htask hsettings hjson, status_validated_iff,
        objections_eq_nil_iff (Json.distinct_of_read hread)]
    exact ⟨hstatus, fun hname h => loadPolicy_of_valid hname hdisk hread (hstatus.mp h)⟩

/-- A document whose rules stand before the attribute that they refer to. -/
def limited (limit bound : Int) : Json :=
  .object [
    ("rules", .array [.object [("type", .string "when"),
      ("condition", .object [("type", .string "greater"),
        ("lhs", .object [("type", .string "number"), ("value", .number (.whole bound))]),
        ("rhs", .object [("type", .string "attribute"), ("name", .string "limit")])]),
      ("decision", .string "Deny")]]),
    ("attributes", .array [.object [("name", .string "limit"),
      ("value", .object [("type", .string "number"), ("value", .number (.whole limit))])]])]

theorem distinct_limited (limit bound : Int) : (limited limit bound).Distinct := by
  simp [limited, Json.Distinct, Json.DistinctItems, Json.DistinctMembers]

theorem plain_limited : (limited 3 7).Plain := by
  have hthree : ∃ n : Number, (3 : Int) = n.val := ⟨⟨3, by decide⟩, rfl⟩
  have hseven : ∃ n : Number, (7 : Int) = n.val := ⟨⟨7, by decide⟩, rfl⟩
  simp [limited, Json.Plain, Json.PlainItems, Json.PlainMembers, hthree, hseven]

/-- A disk with one file. -/
def holding (file text : String) : Disk := fun path =>
  if path = file then .ok text else .error .notFound

/-- Of two numbers that are none, the one of the attribute is told, since attributes are read
first. With numbers in their place the file is valid, and is loaded. -/
theorem limited_validated :
    readRuleSet (limited 9223372036854775808 18446744073709551616) =
        .error (.shape ⟨"$", [.field "attributes", .item 0, .field "value", .field "value"]⟩
          .integer) ∧
      (validating.run (holding "p.json" ((limited 3 7).pretty ++ "\n")) fun _ => none).status = 0 ∧
      ∃ set, loadPolicy (holding "p.json" ((limited 3 7).pretty ++ "\n")) "p.json" = .ok set := by
  constructor
  · have hagrees :=
      schema_agrees_with_reading (limited 9223372036854775808 18446744073709551616)
    have hconforms := (hagrees.1 (distinct_limited _ _)).mp (by decide +kernel)
    obtain ⟨problem, hread, rfl, -⟩ := hagrees.2.1 hconforms
    exact hread
  · have hagrees := schema_agrees_with_reading (limited 3 7)
    have hvalid := (objections_eq_nil_iff (distinct_limited 3 7)).mp (by decide +kernel)
    have hread : Json.read ((limited 3 7).pretty ++ "\n") = some (limited 3 7) :=
      Json.read_pretty plain_limited
    obtain ⟨hstatus, hload⟩ := hagrees.2.2 (holding "p.json" ((limited 3 7).pretty ++ "\n"))
      (fun _ => none) validating .default "p.json" _ rfl hread rfl rfl
    have hzero := hstatus.mpr hvalid
    exact ⟨hzero, hload (by decide) hzero⟩

/-- A disk with a document in a file for policy text. -/
def misnamed : Disk := holding "p.policy" "\x7b\"attributes\":[],\"rules\":[]\x7d"

/-- A file that is valid is not loaded where its name does not end as names of documents do. -/
theorem valid_not_loaded :
    (run misnamed (fun _ => none) ["validate", "p.policy"]).status = 0 ∧
      (run misnamed (fun _ => none) ["eval", "p.policy", "--request", "r.json"]).status = 1 ∧
      ¬ ∃ set, loadPolicy misnamed "p.policy" = .ok set := by
  have hrefused : (loadPolicy misnamed "p.policy").isOk = false := by decide +kernel
  refine ⟨by decide +kernel, by decide +kernel, ?_⟩
  rintro ⟨set, h⟩
  rw [h] at hrefused
  cases hrefused

end Policy.Command
