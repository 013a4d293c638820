import Policy.RuleSet

namespace Policy

/-- Where in a rule set a reference stands. -/
inductive Site where
  | attribute (name : String)
  | rule (number : Nat)
  deriving DecidableEq

def Site.text : Site → String
  | .attribute name => "attribute '" ++ name ++ "'"
  | .rule number => "rule " ++ Decimal.text number

/-- Why a rule set by name has no linked form. -/
inductive LinkError where
  | unresolved (name : String) (site : Site)
  | duplicate (name : String)
  deriving DecidableEq

def LinkError.message : LinkError → String
  | unresolved name site =>
    "unresolved reference to attribute '" ++ name ++ "' in " ++ site.text
  | duplicate name => "duplicate attribute '" ++ name ++ "'"

namespace RuleSet

/-- The first name that already occurred further left. -/
def firstRepeated : (seen names : List String) → Option String
  | _, [] => none
  | seen, name :: names =>
    if seen.contains name then some name else firstRepeated (name :: seen) names

def find (set : RuleSet String) (site : Site) (name : String) : Except LinkError Slot :=
  match set.slot? name with
  | some slot => .ok slot
  | none => .error (.unresolved name site)

def linkAttributes (set : RuleSet String) :
    List (Attribute String) → Except LinkError (List (Attribute Slot))
  | [] => .ok []
  | a :: as => do
    let a ← a.mapRefs (set.find (.attribute a.name))
    let as ← linkAttributes set as
    pure (a :: as)

def linkRules (set : RuleSet String) :
    (number : Nat) → List (Rule String) → Except LinkError (List (Rule Slot))
  | _, [] => .ok []
  | number, rule :: rules => do
    let rule ← rule.mapRefs (set.find (.rule number))
    let rules ← linkRules set (number + 1) rules
    pure (rule :: rules)

/-- Turns names into slots. All definitions are known before any body is read, so an attribute
may refer to those before and after it, and to itself. -/
def link (set : RuleSet String) : Except LinkError (RuleSet Slot) := do
  match firstRepeated [] (set.attributes.map (·.name)) with
  | some name => .error (.duplicate name)
  | none =>
    let attributes ← set.linkAttributes set.attributes
    let rules ← set.linkRules 1 set.rules
    pure ⟨attributes, rules⟩

end RuleSet

end Policy
