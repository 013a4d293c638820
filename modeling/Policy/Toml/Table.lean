import Policy.Toml.Value

namespace Policy.Toml

/-- How a table came to be: by a header, on the way to another table, or by a dotted key. -/
inductive Origin where
  | header
  | path
  | dotted
  deriving DecidableEq

/-- What a table holds while the file is read. Other tables can still grow. -/
inductive Entry where
  | value (v : Toml)
  | table (origin : Origin) (entries : List (String × Entry))
  | tables (last : List (String × Entry)) (others : List (List (String × Entry)))

abbrev Entries := List (String × Entry)

namespace Entries

def get? (name : String) : Entries → Option Entry
  | [] => none
  | (k, e) :: entries => if k = name then some e else get? name entries

def put (name : String) (entry : Entry) : Entries → Entries
  | [] => [(name, entry)]
  | (k, e) :: entries =>
    if k = name then (k, entry) :: entries else (k, e) :: put name entry entries

/-- Changes the table at the end of a path that headers go. Tables on the way come up where they
are missing. -/
def alongHeader (change : Entries → Option Entries) : List String → Entries → Option Entries
  | [], entries => change entries
  | name :: path, entries =>
    match entries.get? name with
    | none => do
      let inner ← alongHeader change path []
      pure (entries.put name (.table .path inner))
    | some (.value _) => none
    | some (.table origin inner) => do
      let inner ← alongHeader change path inner
      pure (entries.put name (.table origin inner))
    | some (.tables last others) => do
      let last ← alongHeader change path last
      pure (entries.put name (.tables last others))

/-- Puts a value at a dotted key. Tables with a header of their own are closed to it. Those on the
way to a header, and lists of tables, can be gone through, but take no values (`here`). -/
def putDotted (v : Toml) : (here : Bool) → List String → Entries → Option Entries
  | _, [], _ => none
  | here, [name], entries =>
    match entries.get? name with
    | none => if here then some (entries.put name (.value v)) else none
    | some _ => none
  | _, name :: path, entries =>
    match entries.get? name with
    | none => do
      let inner ← putDotted v true path []
      pure (entries.put name (.table .dotted inner))
    | some (.table .dotted inner) => do
      let inner ← putDotted v true path inner
      pure (entries.put name (.table .dotted inner))
    | some (.table .path inner) => do
      let inner ← putDotted v false path inner
      pure (entries.put name (.table .path inner))
    | some (.tables last others) => do
      let last ← putDotted v false path last
      pure (entries.put name (.tables last others))
    | some _ => none

/-- Opens the table of a header, once only. -/
def openTable (name : String) (entries : Entries) : Option Entries :=
  match entries.get? name with
  | none => some (entries.put name (.table .header []))
  | some (.table .path inner) => some (entries.put name (.table .header inner))
  | some _ => none

/-- Opens one more table of a list. -/
def openNext (name : String) (entries : Entries) : Option Entries :=
  match entries.get? name with
  | none => some (entries.put name (.tables [] []))
  | some (.tables last others) => some (entries.put name (.tables [] (last :: others)))
  | some _ => none

end Entries

mutual

def Entry.toToml : Entry → Toml
  | .value v => v
  | .table _ entries => .table (membersOf entries)
  | .tables last others => .array ((tablesOf others).reverse ++ [.table (membersOf last)])

def membersOf : List (String × Entry) → List (String × Toml)
  | [] => []
  | (name, e) :: entries => (name, e.toToml) :: membersOf entries

def tablesOf : List (List (String × Entry)) → List Toml
  | [] => []
  | entries :: rest => .table (membersOf entries) :: tablesOf rest

end

end Policy.Toml
