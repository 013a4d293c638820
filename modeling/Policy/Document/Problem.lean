import Policy.Document.Path
import Policy.Wording

namespace Policy.Document

/-- What a member or item should have been. -/
inductive Wanted where
  | object
  | array
  | string
  | integer
  | attributeName
  deriving DecidableEq

def Wanted.text : Wanted → String
  | object => "an object"
  | array => "an array"
  | string => "a string"
  | integer => "a 64-bit integer"
  | attributeName => "an attribute name"

/-- Why a document is not a rule set, and where. -/
inductive Problem where
  | notJson
  | missing (path : Path) (field : String)
  | shape (path : Path) (wanted : Wanted)
  | unknownNode (path : Path) (kind : String)
  | unknownMethod (path : Path) (name : String)
  | unknownKind (path : Path) (name : String)
  | unknownDecision (path : Path) (name : String)
  deriving DecidableEq

def Problem.message [Wording] : Problem → String
  | notJson => "invalid JSON: " ++ Wording.document
  | missing path field => path.text ++ ": missing required field '" ++ field ++ "'"
  | shape path wanted => path.text ++ ": expected " ++ wanted.text
  | unknownNode path kind => path.text ++ ": unknown node type '" ++ kind ++ "'"
  | unknownMethod path name => path.text ++ ": unknown REST method '" ++ name ++ "'"
  | unknownKind path name => path.text ++ ": unknown value type '" ++ name ++ "'"
  | unknownDecision path name => path.text ++ ": unknown decision '" ++ name ++ "'"

end Policy.Document
