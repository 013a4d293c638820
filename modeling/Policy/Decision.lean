namespace Policy

/-- The outcome of a rule. A rule that does not apply is undecided. -/
inductive Decision where
  | permit
  | deny
  | undecided
  deriving DecidableEq

namespace Decision

instance : Inhabited Decision := ⟨undecided⟩

def name : Decision → String
  | permit => "Permit"
  | deny => "Deny"
  | undecided => "Undecided"

def ofName? : String → Option Decision
  | "Permit" => some permit
  | "Deny" => some deny
  | "Undecided" => some undecided
  | _ => none

theorem ofName_name (d : Decision) : ofName? d.name = some d := by
  cases d <;> rfl

/-- The target once more than half of the members reached it. -/
def majority (target : Decision) (members : List Decision) : Decision :=
  if members.length < 2 * members.count target then target else undecided

/-- The target once every member reached it, so also for no members at all. -/
def unanimous (target : Decision) (members : List Decision) : Decision :=
  if members.all (· = target) then target else undecided

/-- The target once some member reached it. -/
def anyOf (target : Decision) (members : List Decision) : Decision :=
  if members.contains target then target else undecided

/-- The one decision among the members that is not undecided, if there is exactly one. -/
def exclusive (members : List Decision) : Decision :=
  match members.filter (· ≠ undecided) with
  | [d] => d
  | _ => undecided

end Decision

end Policy
