import Policy.Json.Binary64

namespace Policy

/-- A number of a document. Whole numbers take 64 bits, with or without a sign. -/
inductive Json.Number where
  | whole (i : Int)
  | float (x : Binary64)
  deriving DecidableEq

/-- A document. The members of an object keep the order in which their names came up first. -/
inductive Json where
  | null
  | bool (b : Bool)
  | number (n : Json.Number)
  | string (text : String)
  | array (items : List Json)
  | object (members : List (String × Json))

namespace Json

instance : Inhabited Json := ⟨null⟩

mutual

def same : Json → Json → Bool
  | null, null => true
  | bool b, bool b' => b = b'
  | number n, number n' => n = n'
  | string s, string s' => s = s'
  | array xs, array ys => sameItems xs ys
  | object xs, object ys => sameMembers xs ys
  | _, _ => false

def sameItems : List Json → List Json → Bool
  | [], [] => true
  | x :: xs, y :: ys => same x y && sameItems xs ys
  | _, _ => false

def sameMembers : List (String × Json) → List (String × Json) → Bool
  | [], [] => true
  | (k, x) :: xs, (l, y) :: ys => k = l && same x y && sameMembers xs ys
  | _, _ => false

end

mutual

theorem same_iff (x y : Json) : same x y = true ↔ x = y := by
  cases x <;> cases y <;> simp [same, sameItems_iff, sameMembers_iff]

theorem sameItems_iff (xs ys : List Json) : sameItems xs ys = true ↔ xs = ys := by
  cases xs <;> cases ys <;> simp [sameItems, same_iff, sameItems_iff]

theorem sameMembers_iff (xs ys : List (String × Json)) : sameMembers xs ys = true ↔ xs = ys := by
  match xs, ys with
  | [], [] => simp [sameMembers]
  | [], _ :: _ => simp [sameMembers]
  | _ :: _, [] => simp [sameMembers]
  | (k, x) :: xs, (l, y) :: ys => simp [sameMembers, same_iff x y, sameMembers_iff xs ys]

end

instance : DecidableEq Json := fun x y => decidable_of_iff _ (same_iff x y)

def nat (n : Nat) : Json := number (.whole n)

/-- Puts a member into an object. A name that is there already keeps its place and takes the new
value. -/
def put {α : Type} (name : String) (x : α) : List (String × α) → List (String × α)
  | [] => [(name, x)]
  | (k, y) :: members => if k = name then (k, x) :: members else (k, y) :: put name x members

/-- The members with each name once, at its first place and with its last value. -/
def collect {α : Type} (members : List (String × α)) : List (String × α) :=
  members.foldl (fun seen (name, x) => put name x seen) []

def get? {α : Type} (name : String) : List (String × α) → Option α
  | [] => none
  | (k, x) :: members => if k = name then some x else get? name members

end Json

end Policy
