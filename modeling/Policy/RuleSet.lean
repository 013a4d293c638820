import Policy.Rule

namespace Policy

/-- A named term that other terms can refer to. -/
structure Attribute (α : Type) where
  name : String
  value : Term α
  deriving DecidableEq

/-- The attributes of a policy and the rules that each request is put to. -/
@[ext] structure RuleSet (α : Type) where
  attributes : List (Attribute α)
  rules : List (Rule α)
  deriving DecidableEq

/-- The same attribute with every reference passed through `f`. -/
def Attribute.mapRefs {α β : Type} {m : Type → Type} [Monad m] (f : α → m β)
    (a : Attribute α) : m (Attribute β) := do
  let value ← a.value.mapRefs f
  pure ⟨a.name, value⟩

/-- The place of an attribute in the attribute list of its rule set. -/
abbrev Slot := Nat

namespace RuleSet

variable {α β : Type} {m : Type → Type} [Monad m]

/-- The references of a rule set in reading order, attributes before rules. -/
def refs (set : RuleSet α) : List α :=
  set.attributes.flatMap (·.value.refs) ++ set.rules.flatMap (·.refs)

/-- The same rule set with every reference passed through `f`, attributes before rules. -/
def mapRefs (f : α → m β) (set : RuleSet α) : m (RuleSet β) := do
  let attributes ← set.attributes.mapM (·.mapRefs f)
  let rules ← set.rules.mapM (·.mapRefs f)
  pure ⟨attributes, rules⟩

/-- The first slot that holds an attribute of this name. -/
def slot? (set : RuleSet α) (name : String) : Option Slot :=
  set.attributes.findIdx? (·.name = name)

/-- The name of the attribute in a slot. A slot beyond the list is shown by its number. -/
def nameAt (set : RuleSet α) (slot : Slot) : String :=
  match set.attributes[slot]? with
  | some a => a.name
  | none => "#" ++ Decimal.text slot

/-- The rule set with every slot written as a name again. -/
def byName (set : RuleSet Slot) : RuleSet String :=
  Id.run (set.mapRefs fun slot => pure (set.nameAt slot))

end RuleSet

end Policy
