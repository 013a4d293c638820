import Policy.Proofs.Document.Nodes
import Policy.Proofs.Document.Shapes
import Policy.Proofs.Resolved

namespace Policy.Document

open Schema

/-! ## The nodes of a document -/

/-- The members that hold parts of a rule set, in the order in which they are read. -/
def readingOrder : List String :=
  ["attributes", "value", "condition", "true", "false", "from", "lhs", "rhs", "rules"]

/-- An object with its place. -/
abbrev Placed := Path × List (String × Json)

mutual

/-- The objects that a rule set is read from, in the order of reading. -/
def nodes : Path → Json → List Placed
  | path, .object members =>
    (path, members) :: readingOrder.flatMap fun name =>
      (Json.get? name (memberNodes path members)).getD []
  | path, .array items => itemNodes path 0 items
  | _, _ => []

def itemNodes : Path → (index : Nat) → List Json → List Placed
  | _, _, [] => []
  | path, index, x :: xs => nodes (path.item index) x ++ itemNodes path (index + 1) xs

def memberNodes : Path → List (String × Json) → List (String × List Placed)
  | _, [] => []
  | path, (name, x) :: members => (name, nodes (path.field name) x) :: memberNodes path members

end

/-- The value of a node that stands for a number, with its place. -/
def numberIn (node : Placed) : List (Path × Json) :=
  if Json.get? "type" node.2 = some (.string "number") then
    (Json.get? "value" node.2).toList.map fun x => (node.1.field "value", x)
  else []

def textOf? : Json → Option String
  | .string text => some text
  | _ => none

/-- The names that a node refers to: that of an attribute, or those of the parameters of a call. -/
def refsIn (node : Placed) : List String :=
  match Json.get? "type" node.2, Json.get? "name" node.2, Json.get? "params" node.2 with
  | some (.string "attribute"), some (.string ref), _ => [ref]
  | some (.string "rest"), _, some (.object params) => params.filterMap fun m => textOf? m.2
  | _, _, _ => []

/-- The values of all nodes that stand for numbers, in the order in which they are read. -/
def numbers (doc : Json) : List (Path × Json) := (nodes .start doc).flatMap numberIn

/-- The names of attributes that the terms of a document refer to. -/
def references (doc : Json) : List String := (nodes .start doc).flatMap refsIn

/-- Whether a value is a whole number of 64 bits with a sign. -/
def isNumber : Json → Bool
  | .number (.whole i) => (Number.ofInt? i).isSome
  | _ => false

theorem get_memberNodes (path : Path) (name : String) (members : List (String × Json)) :
    Json.get? name (memberNodes path members) =
      (Json.get? name members).map (nodes (path.field name)) := by
  induction members with
  | nil => rfl
  | cons m members ih =>
    obtain ⟨k, x⟩ := m
    rw [memberNodes, Json.get?, Json.get?]
    by_cases hk : k = name
    · rw [if_pos hk, if_pos hk, Option.map_some, hk]
    · rw [if_neg hk, if_neg hk, ih]

/-- The nodes below a member of an object. -/
def part (path : Path) (members : List (String × Json)) (name : String) : List Placed :=
  ((Json.get? name members).map (nodes (path.field name))).getD []

theorem part_eq {path : Path} {members : List (String × Json)} {name : String} {x : Json}
    (h : Json.get? name members = some x) : part path members name = nodes (path.field name) x := by
  rw [part, h]
  rfl

/-- The nodes below an object that has the members of a record. -/
theorem nodes_of_has {record : List (String × (Json → Prop))} {members : List (String × Json)}
    (h : Has record members) (path : Path) :
    nodes path (.object members) = (path, members) ::
      (readingOrder.filter fun name => (Json.get? name record).isSome).flatMap
        (part path members) := by
  have hflat : ∀ names : List String,
      (names.flatMap fun name => (Json.get? name (memberNodes path members)).getD []) =
        (names.filter fun name => (Json.get? name record).isSome).flatMap (part path members) := by
    intro names
    induction names with
    | nil => rfl
    | cons name names ih =>
      rw [List.flatMap_cons, ih, get_memberNodes, List.filter_cons]
      cases hname : Json.get? name record with
      | none =>
        rw [h.get_none hname]
        rfl
      | some P =>
        rw [Option.isSome_some, if_pos rfl, List.flatMap_cons, part]
  rw [nodes, hflat]

/-! ## Telling the first number that is none -/

section Told

variable {α β : Type} {P : α → Prop} {Q : β → Prop} {numbers more : List (Path × Json)}

/-- A reader fails at the first value that should be a number and is none, and for no other
reason. Where there is no such value, it gives what it should. -/
def Told (numbers : List (Path × Json)) (P : α → Prop) (found : Except Problem α) : Prop :=
  match numbers.find? fun n => !isNumber n.2 with
  | some (place, _) => found = .error (.shape place .integer)
  | none => ∃ a, found = .ok a ∧ P a

theorem Told.ok {a : α} (h : P a) : Told [] P (.ok a) := ⟨a, rfl, h⟩

theorem Told.bind {first : Except Problem α} {next : α → Except Problem β}
    (hfirst : Told numbers P first) (hnext : ∀ a, P a → Told more Q (next a)) :
    Told (numbers ++ more) Q (first >>= next) := by
  unfold Told at hfirst ⊢
  rw [List.find?_append]
  cases hn : numbers.find? fun n => !isNumber n.2 with
  | some n =>
    rw [hn] at hfirst
    rw [hfirst]
    rfl
  | none =>
    rw [hn] at hfirst
    obtain ⟨a, rfl, ha⟩ := hfirst
    exact hnext a ha

/-- A last step that cannot fail. -/
theorem Told.map {first : Except Problem α} {f : α → β} (hfirst : Told numbers P first)
    (h : ∀ a, P a → Q (f a)) : Told numbers Q (do pure (f (← first))) := by
  have hlast : ∀ a, P a → Told [] Q (pure (f a)) := fun a ha => .ok (h a ha)
  have hbind := hfirst.bind hlast
  rwa [List.append_nil] at hbind

end Told

theorem told_number {path : Path} {name : String} {members : List (String × Json)} {x : Json}
    (h : Json.get? name members = some x) :
    Told [(path.field name, x)] (fun _ => True) (requiredNumber path name (.object members)) := by
  have hfind : [(path.field name, x)].find? (fun n => !isNumber n.2) =
      if isNumber x then none else some (path.field name, x) := by
    cases hx : isNumber x with
    | _ => simp [hx]
  rw [Told, hfind, requiredNumber, required_eq h, ok_bind]
  cases x with
  | number n =>
    cases n with
    | whole i =>
      cases hi : Number.ofInt? i with
      | none => simp [isNumber, hi]
      | some n => simp [isNumber, hi]
    | float f => simp [isNumber]
  | _ => simp [isNumber]

/-! ## References of nodes of one kind -/

theorem refs_join {kind : String} {join : Condition String → Condition String → Condition String}
    (h : (kind, join) ∈ joins) (lhs rhs : Condition String) :
    (join lhs rhs).refs = lhs.refs ++ rhs.refs := by
  simp only [joins, List.mem_cons, Prod.mk.injEq, List.not_mem_nil, or_false] at h
  rcases h with ⟨-, rfl⟩ | ⟨-, rfl⟩
  · rfl
  · rfl

theorem refs_compare {kind : String} {compare : Term String → Term String → Condition String}
    (h : (kind, compare) ∈ comparisons) (lhs rhs : Term String) :
    (compare lhs rhs).refs = lhs.refs ++ rhs.refs := by
  simp only [comparisons, List.mem_cons, Prod.mk.injEq, List.not_mem_nil, or_false] at h
  rcases h with ⟨-, rfl⟩ | ⟨-, rfl⟩
  · rfl
  · rfl

theorem refs_group {kind : String} {group : Decision → List (Rule String) → Rule String}
    (h : (kind, group) ∈ groups) (decision : Decision) (members : List (Rule String)) :
    (group decision members).refs = Rule.memberRefs members := by
  simp only [groups, List.mem_cons, Prod.mk.injEq, List.not_mem_nil, or_false] at h
  rcases h with ⟨-, rfl⟩ | ⟨-, rfl⟩ | ⟨-, rfl⟩
  · rfl
  · rfl
  · rfl

/-! ## Nodes that are gone through -/

/-- A reader tells the first number that is none among those of the given nodes, and what it gives
refers to the names of the nodes. -/
def GoesThrough {α : Type} (placed : List Placed) (refs : α → List String)
    (found : Except Problem α) : Prop :=
  Told (placed.flatMap numberIn) (fun a => refs a = placed.flatMap refsIn) found

section Kinds

variable {path : Path} {members : List (String × Json)} {kind : String}

theorem numberIn_eq_nil (h : Json.get? "type" members ≠ some (.string "number")) :
    numberIn (path, members) = [] := by
  rw [numberIn, if_neg h]

theorem refsIn_eq_nil (hattr : Json.get? "type" members ≠ some (.string "attribute"))
    (hrest : Json.get? "type" members ≠ some (.string "rest")) : refsIn (path, members) = [] := by
  unfold refsIn
  split
  · next htype _ => exact absurd htype hattr
  · next htype _ => exact absurd htype hrest
  · rfl

theorem refsIn_rest {params : List (String × String)}
    (h : Json.get? "type" members = some (.string "rest"))
    (hparams : Json.get? "params" members =
      some (.object (params.map fun (name, ref) => (name, .string ref)))) :
    refsIn (path, members) = params.map Prod.snd := by
  have htexts : (params.map fun (name, ref) => (name, Json.string ref)).filterMap
      (fun m => textOf? m.2) = params.map Prod.snd := by
    induction params with
    | nil => rfl
    | cons p params ih => simp [textOf?]
  simp [refsIn, h, hparams, htexts]

end Kinds

section GoesThrough

variable {α β γ : Type} {refs : α → List String} {refs' : β → List String}
  {refs'' : γ → List String} {placed more : List Placed} {path : Path}
  {members : List (String × Json)} {kind : String}

theorem GoesThrough.leaf {node : Placed} {a : α} (hnumber : numberIn node = [])
    (hrefs : refs a = refsIn node) : GoesThrough [node] refs (.ok a) := by
  simp only [GoesThrough, List.flatMap_cons, List.flatMap_nil, List.append_nil, hnumber]
  exact .ok hrefs

/-- A node that neither is a number nor refers to names leaves all to those below it. -/
theorem GoesThrough.above {found : Except Problem α}
    (hkind : ∀ kind ∈ ["number", "attribute", "rest"],
      Json.get? "type" members ≠ some (.string kind))
    (h : GoesThrough placed refs found) : GoesThrough ((path, members) :: placed) refs found := by
  have hnumber : numberIn (path, members) = [] := numberIn_eq_nil (hkind _ (by simp))
  have hrefs : refsIn (path, members) = [] :=
    refsIn_eq_nil (hkind _ (by simp)) (hkind _ (by simp))
  simpa only [GoesThrough, List.flatMap_cons, hnumber, hrefs, List.nil_append] using h

theorem GoesThrough.above_of_kind {found : Except Problem α} {options : List String}
    (htype : Json.get? "type" members = some (.string kind)) (hkind : kind ∈ options)
    (h : GoesThrough placed refs found)
    (hoptions : ∀ kind ∈ options, kind ∉ ["number", "attribute", "rest"] := by decide) :
    GoesThrough ((path, members) :: placed) refs found := by
  refine .above (fun other hother heq => ?_) h
  cases htype.symm.trans heq
  exact hoptions _ hkind hother

theorem GoesThrough.above_of_has {found : Except Problem α} {record : List (String × (Json → Prop))}
    (hhas : Has record members) (hrecord : Json.get? "type" record = none)
    (h : GoesThrough placed refs found) : GoesThrough ((path, members) :: placed) refs found := by
  refine .above (fun kind _ htype => ?_) h
  rw [hhas.get_none hrecord] at htype
  cases htype

theorem GoesThrough.nil {a : α} (h : refs a = []) : GoesThrough [] refs (.ok a) := .ok h

theorem GoesThrough.map {first : Except Problem α} {f : α → β} (h : GoesThrough placed refs first)
    (hrefs : ∀ a, refs' (f a) = refs a) :
    GoesThrough placed refs' (do pure (f (← first))) :=
  Told.map h fun a ha => (hrefs a).trans ha

theorem GoesThrough.both {first : Except Problem α} {second : Except Problem β} {f : α → β → γ}
    (hfirst : GoesThrough placed refs first) (hsecond : GoesThrough more refs' second)
    (hrefs : ∀ a b, refs'' (f a b) = refs a ++ refs' b) :
    GoesThrough (placed ++ more) refs'' (do
      let a ← first
      let b ← second
      pure (f a b)) := by
  rw [GoesThrough, List.flatMap_append, List.flatMap_append]
  refine Told.bind hfirst fun a ha => Told.map hsecond fun b hb => ?_
  rw [hrefs, ha, hb]

/-- An object with a single member to read goes through the nodes below that one. -/
theorem GoesThrough.below {found : Except Problem α} {name : String} {x : Json}
    (hget : Json.get? name members = some x)
    (h : GoesThrough (nodes (path.field name) x) refs found) :
    GoesThrough ([name].flatMap (part path members)) refs found := by
  rwa [List.flatMap_singleton, part_eq hget]

theorem GoesThrough.below_both {found : Except Problem α} {first second : String} {x y : Json}
    (hx : Json.get? first members = some x) (hy : Json.get? second members = some y)
    (h : GoesThrough (nodes (path.field first) x ++ nodes (path.field second) y) refs found) :
    GoesThrough ([first, second].flatMap (part path members)) refs found := by
  rwa [List.flatMap_cons, List.flatMap_singleton, part_eq hx, part_eq hy]

end GoesThrough

/-! ## Terms -/

/-- By recursion on the document, one case for each form of a term. -/
theorem goesThrough_term (path : Path) (doc : Json) (h : Fits doc (.node .term)) :
    GoesThrough (nodes path doc) Term.refs (readTerm path doc) := by
  obtain ⟨form, hform, members, rfl, hhas⟩ := (fits_node_iff doc .term).mp h
  obtain ⟨kind, hkind, htype⟩ := exists_kind hform hhas
  rw [nodes_of_has hhas]
  simp only [Family.forms, List.mem_cons, List.not_mem_nil, or_false] at hform
  rcases hform with rfl | rfl | rfl | rfl | rfl | rfl | rfl
  · cases List.mem_singleton.mp hkind
    obtain ⟨text, hvalue⟩ := hhas.text "value" rfl
    rw [readTerm_string htype hvalue]
    refine .above_of_kind htype hkind ?_
    refine .below hvalue ?_
    simp only [nodes]
    exact .nil rfl
  · cases List.mem_singleton.mp hkind
    obtain ⟨x, hvalue, hinteger⟩ := hhas.field "value" rfl
    have hbelow : nodes (path.field "value") x = [] := by
      cases x with
      | number n => rfl
      | _ => simp [Fits] at hinteger
    have hnumber : numberIn (path, members) = [(path.field "value", x)] := by
      simp [numberIn, htype, hvalue]
    have hrefs : refsIn (path, members) = [] := refsIn_eq_nil (by simp [htype]) (by simp [htype])
    rw [readTerm_number htype]
    show GoesThrough (_ :: ["value"].flatMap _) _ _
    simp only [List.flatMap_cons, List.flatMap_nil, part_eq hvalue, hbelow, List.append_nil,
      GoesThrough, hnumber, hrefs]
    exact (told_number hvalue).map fun _ _ => rfl
  · cases List.mem_singleton.mp hkind
    obtain ⟨ref, hname⟩ := hhas.ref "name" rfl
    rw [readTerm_attr htype hname]
    exact .leaf (numberIn_eq_nil (by simp [htype])) (by simp [refsIn, htype, hname, Term.refs])
  · cases List.mem_singleton.mp hkind
    obtain ⟨key, hkey⟩ := hhas.text "key" rfl
    rw [readTerm_request htype hkey]
    exact .above_of_kind htype hkind (.nil rfl)
  · cases List.mem_singleton.mp hkind
    obtain ⟨url, hurl⟩ := hhas.text "url" rfl
    obtain ⟨_, hword, hmethod⟩ := hhas.word "method" rfl
    obtain ⟨method, rfl⟩ := exists_method hword
    obtain ⟨params, hparams⟩ := hhas.params "params" rfl
    rw [readTerm_rest htype hurl hmethod hparams]
    exact .leaf (numberIn_eq_nil (by simp [htype])) (refsIn_rest htype hparams).symm
  · cases List.mem_singleton.mp hkind
    obtain ⟨operand, hfrom, hoperand⟩ := hhas.field "from" rfl
    obtain ⟨_, hword, hto⟩ := hhas.word "to" rfl
    obtain ⟨target, rfl⟩ := exists_kind_of_name hword
    have hsize := sizeOf_get hfrom
    rw [readTerm_coerce_of_get htype hfrom hto]
    refine .above_of_kind htype hkind ?_
    refine .below hfrom ?_
    exact (goesThrough_term _ operand hoperand).map fun _ => rfl
  · obtain ⟨op, rfl⟩ := exists_operator hkind
    obtain ⟨lhs, hlhs, hl⟩ := hhas.field "lhs" rfl
    obtain ⟨rhs, hrhs, hr⟩ := hhas.field "rhs" rfl
    have hsizel := sizeOf_get hlhs
    have hsizer := sizeOf_get hrhs
    rw [readTerm_binary htype hlhs hrhs]
    refine .above_of_kind htype hkind ?_
    refine .below_both hlhs hrhs ?_
    exact (goesThrough_term _ lhs hl).both (goesThrough_term _ rhs hr) fun _ _ => rfl
termination_by sizeOf doc

/-! ## Conditions -/

theorem goesThrough_condition (path : Path) (doc : Json) (h : Fits doc (.node .condition)) :
    GoesThrough (nodes path doc) Condition.refs (readCondition path doc) := by
  obtain ⟨form, hform, members, rfl, hhas⟩ := (fits_node_iff doc .condition).mp h
  obtain ⟨kind, hkind, htype⟩ := exists_kind hform hhas
  rw [nodes_of_has hhas]
  simp only [Family.forms, List.mem_cons, List.not_mem_nil, or_false] at hform
  rcases hform with rfl | rfl | rfl
  · cases List.mem_singleton.mp hkind
    obtain ⟨inner, hinner, hi⟩ := hhas.field "condition" rfl
    have hsize := sizeOf_get hinner
    rw [readCondition_not htype hinner]
    refine .above_of_kind htype hkind ?_
    refine .below hinner ?_
    exact (goesThrough_condition _ inner hi).map fun _ => rfl
  · obtain ⟨join, hjoin⟩ := exists_join hkind
    obtain ⟨lhs, hlhs, hl⟩ := hhas.field "lhs" rfl
    obtain ⟨rhs, hrhs, hr⟩ := hhas.field "rhs" rfl
    have hsizel := sizeOf_get hlhs
    have hsizer := sizeOf_get hrhs
    rw [readCondition_join hjoin htype hlhs hrhs]
    refine .above_of_kind htype hkind ?_
    refine .below_both hlhs hrhs ?_
    exact (goesThrough_condition _ lhs hl).both (goesThrough_condition _ rhs hr) (refs_join hjoin)
  · obtain ⟨compare, hcompare⟩ := exists_comparison hkind
    obtain ⟨lhs, hlhs, hl⟩ := hhas.field "lhs" rfl
    obtain ⟨rhs, hrhs, hr⟩ := hhas.field "rhs" rfl
    rw [readCondition_compare hcompare htype hlhs hrhs]
    refine .above_of_kind htype hkind ?_
    refine .below_both hlhs hrhs ?_
    exact (goesThrough_term _ lhs hl).both (goesThrough_term _ rhs hr) (refs_compare hcompare)
termination_by sizeOf doc

/-! ## Rules -/

mutual

theorem goesThrough_rule (path : Path) (doc : Json) (h : Fits doc (.node .rule)) :
    GoesThrough (nodes path doc) Rule.refs (readRule path doc) := by
  obtain ⟨form, hform, members, rfl, hhas⟩ := (fits_node_iff doc .rule).mp h
  obtain ⟨kind, hkind, htype⟩ := exists_kind hform hhas
  rw [nodes_of_has hhas]
  simp only [Family.forms, List.mem_cons, List.not_mem_nil, or_false] at hform
  rcases hform with rfl | rfl | rfl | rfl | rfl
  · obtain ⟨_, hword, hdecision⟩ := hhas.word "decision" rfl
    obtain ⟨decision, rfl⟩ := exists_decision hword
    refine .above_of_kind htype hkind ?_
    rcases List.mem_pair.mp hkind with rfl | rfl
    · rw [readRule_always htype hdecision]
      exact .nil rfl
    · rw [readRule_never htype hdecision]
      exact .nil rfl
  · cases List.mem_singleton.mp hkind
    obtain ⟨condition, hcondition, hc⟩ := hhas.field "condition" rfl
    obtain ⟨_, hword, hdecision⟩ := hhas.word "decision" rfl
    obtain ⟨decision, rfl⟩ := exists_decision hword
    rw [readRule_when htype hcondition hdecision]
    refine .above_of_kind htype hkind ?_
    refine .below hcondition ?_
    exact (goesThrough_condition _ condition hc).map fun _ => rfl
  · cases List.mem_singleton.mp hkind
    obtain ⟨condition, hcondition, hc⟩ := hhas.field "condition" rfl
    obtain ⟨onTrue, htrue, ht⟩ := hhas.field "true" rfl
    obtain ⟨onFalse, hfalse, hf⟩ := hhas.field "false" rfl
    have hsizet := sizeOf_get htrue
    have hsizef := sizeOf_get hfalse
    rw [readRule_branch htype hcondition htrue hfalse]
    refine .above_of_kind htype hkind ?_
    show GoesThrough (["condition", "true", "false"].flatMap _) _ _
    simp only [List.flatMap_cons, List.flatMap_nil, part_eq hcondition, part_eq htrue,
      part_eq hfalse, List.append_nil, GoesThrough, List.flatMap_append]
    refine Told.bind (goesThrough_condition _ condition hc) fun c hc => ?_
    refine Told.bind (goesThrough_rule _ onTrue ht) fun t ht => ?_
    refine Told.map (goesThrough_rule _ onFalse hf) fun f hf => ?_
    rw [Rule.refs, hc, ht, hf, List.append_assoc]
  · obtain ⟨group, hgroup⟩ := exists_group hkind
    obtain ⟨_, hword, hdecision⟩ := hhas.word "decision" rfl
    obtain ⟨decision, rfl⟩ := exists_decision hword
    obtain ⟨items, hrules, hitems⟩ := hhas.items "rules" rfl
    have hsize := sizeOf_get_array hrules
    rw [readRule_group hgroup htype hdecision hrules]
    refine .above_of_kind htype hkind ?_
    refine .below hrules ?_
    rw [nodes]
    exact (goesThrough_rules _ 0 items hitems).map (refs_group hgroup decision)
  · cases List.mem_singleton.mp hkind
    obtain ⟨items, hrules, hitems⟩ := hhas.items "rules" rfl
    have hsize := sizeOf_get_array hrules
    rw [readRule_oneOf htype hrules]
    refine .above_of_kind htype hkind ?_
    refine .below hrules ?_
    rw [nodes]
    exact (goesThrough_rules _ 0 items hitems).map fun _ => rfl
termination_by sizeOf doc

theorem goesThrough_rules (path : Path) (index : Nat) (docs : List Json)
    (h : ∀ x ∈ docs, Fits x (.node .rule)) :
    GoesThrough (itemNodes path index docs) Rule.memberRefs (readRules path index docs) := by
  match docs with
  | [] =>
    rw [readRules]
    exact .nil rfl
  | x :: xs =>
    obtain ⟨hx, hxs⟩ := List.forall_mem_cons.mp h
    rw [itemNodes, readRules]
    exact (goesThrough_rule _ x hx).both (goesThrough_rules path (index + 1) xs hxs) fun _ _ => rfl
termination_by sizeOf docs

end

/-! ## Attributes and rule sets -/

theorem goesThrough_attribute (path : Path) (doc : Json) (h : IsAttribute doc) :
    GoesThrough (nodes path doc) (fun a : Attribute String => a.value.refs)
      (readAttribute path doc) := by
  obtain ⟨members, rfl, hhas⟩ := h
  obtain ⟨_, hname, hn⟩ : ∃ x, Json.get? "name" members = some x ∧ Fits x .name := hhas.get rfl
  obtain ⟨text, rfl, -⟩ := hn.name
  obtain ⟨value, hvalue, hv⟩ : ∃ x, Json.get? "value" members = some x ∧ Fits x (.node .term) :=
    hhas.get rfl
  rw [nodes_of_has hhas, readAttribute_eq hname hvalue]
  refine .above_of_has hhas rfl ?_
  refine .below hvalue ?_
  exact (goesThrough_term _ value hv).map fun _ => rfl

theorem goesThrough_attributes (path : Path) (index : Nat) {docs : List Json}
    (h : ∀ x ∈ docs, IsAttribute x) :
    GoesThrough (itemNodes path index docs)
      (fun as : List (Attribute String) => as.flatMap (·.value.refs))
      (readAttributes path index docs) := by
  induction docs generalizing index with
  | nil => exact .nil rfl
  | cons x xs ih =>
    obtain ⟨hx, hxs⟩ := List.forall_mem_cons.mp h
    rw [itemNodes]
    exact (goesThrough_attribute _ x hx).both (ih (index + 1) hxs) fun _ _ => List.flatMap_cons

/-- Of a document that conforms to the schema, reading tells the first number that is none. -/
theorem goesThrough_ruleSet {doc : Json} (h : Conforms doc) :
    GoesThrough (nodes .start doc) RuleSet.refs (readRuleSet doc) := by
  obtain ⟨members, rfl, hhas⟩ := h
  obtain ⟨_, hattributes, attributes, rfl, ha⟩ :
      ∃ x, Json.get? "attributes" members = some x ∧ ArrayOf IsAttribute x := hhas.get rfl
  obtain ⟨_, hrules, rules, rfl, hr⟩ :
      ∃ x, Json.get? "rules" members = some x ∧ ArrayOf (Fits · (.node .rule)) x := hhas.get rfl
  rw [nodes_of_has hhas, readRuleSet_eq hattributes hrules]
  refine .above_of_has hhas rfl ?_
  refine .below_both hattributes hrules ?_
  rw [nodes, nodes]
  refine (goesThrough_attributes _ 0 ha).both (goesThrough_rules _ 0 rules hr) fun as rs => ?_
  rw [RuleSet.refs, Rule.memberRefs_eq_flatMap]

end Policy.Document
