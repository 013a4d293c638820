import Policy.Decimal

namespace Policy.Document

/-- The way from an object to a member or from an array to an item. -/
inductive Step where
  | field (name : String)
  | item (index : Nat)
  deriving DecidableEq

def Step.text : Step → String
  | field name => "." ++ name
  | item index => "[" ++ Decimal.text index ++ "]"

/-- A place in a document, named from a root. -/
structure Path where
  root : String
  steps : List Step
  deriving DecidableEq

namespace Path

/-- The whole document. -/
def start : Path := ⟨"$", []⟩

def field (path : Path) (name : String) : Path := ⟨path.root, path.steps ++ [.field name]⟩

def item (path : Path) (index : Nat) : Path := ⟨path.root, path.steps ++ [.item index]⟩

def text (path : Path) : String := path.root ++ String.join (path.steps.map Step.text)

end Path

end Policy.Document
