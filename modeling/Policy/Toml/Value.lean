namespace Policy

/-- A value of a settings file. Of numbers with a fraction and of dates only their presence
counts. -/
inductive Toml where
  | string (text : String)
  | integer (i : Int)
  | boolean (b : Bool)
  | fraction
  | date
  | array (items : List Toml)
  | table (members : List (String × Toml))

namespace Toml

instance : Inhabited Toml := ⟨boolean false⟩

end Toml

end Policy
