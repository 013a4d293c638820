namespace Policy.Http

/-- The address of a service. The target is what stands behind the authority, up to a fragment. -/
structure Url where
  scheme : List Char
  authority : List Char
  path : List Char
  query : Option (List Char)
  deriving DecidableEq

namespace Url

def sizeLimit : Nat := 65534

def isBreak (c : Char) : Bool := c = '/' || c = '?' || c = '#'

/-- The characters that an authority may hold apart from brackets, colons and percent signs. -/
def isAuthorityChar (c : Char) : Bool :=
  c.isAlphanum || ['!', '$', '&', '\x27', '(', ')', '*', '+', ',', '-', '.', ';', '=', '@', '_',
    '~'].contains c

/-- What has been seen of an authority. Colons and percent signs in front of an at sign or within
brackets do not count. -/
structure Authority where
  colons : Nat
  opened : Bool
  closed : Bool
  percent : Bool
  endsInAt : Bool
  deriving DecidableEq

namespace Authority

def start : Authority := ⟨0, false, false, false, false⟩

def step (a : Authority) (c : Char) : Option Authority :=
  match c with
  | ':' => if 8 ≤ a.colons then none else some { a with colons := a.colons + 1, endsInAt := false }
  | '[' =>
    if a.percent || a.opened then none else some { a with opened := true, endsInAt := false }
  | ']' =>
    if !a.opened || a.closed then none else some ⟨0, a.opened, true, false, false⟩
  | '@' => some ⟨0, a.opened, a.closed, false, true⟩
  | '%' => some { a with percent := true, endsInAt := false }
  | c => if isAuthorityChar c then some { a with endsInAt := false } else none

def isSound (a : Authority) : Bool :=
  a.opened = a.closed && a.colons ≤ 1 && !a.endsInAt && !a.percent

end Authority

def soundAuthority (cs : List Char) : Bool :=
  !cs.isEmpty && ((cs.foldlM Authority.step .start).any Authority.isSound)

def isPathChar (c : Char) : Bool :=
  let n := c.toNat
  n = 0x21 || (0x24 ≤ n && n ≤ 0x3B) || n = 0x3D || (0x40 ≤ n && n ≤ 0x5F) ||
    (0x61 ≤ n && n ≤ 0x7A) || n = 0x7C || 0x7E ≤ n || c = '"' || c = '\x7b' || c = '\x7d'

def isQueryChar (c : Char) : Bool :=
  let n := c.toNat
  n = 0x21 || (0x24 ≤ n && n ≤ 0x3B) || n = 0x3D || 0x3F ≤ n

def afterScheme? (scheme : List Char) (cs : List Char) : Option (List Char) :=
  let start := scheme ++ [':', '/', '/']
  if start.isPrefixOf ((cs.take start.length).map Char.toLower) then some (cs.drop start.length)
  else none

/-- The scheme and what stands behind it. -/
def splitScheme? (cs : List Char) : Option (List Char × List Char) :=
  let http := ['h', 't', 't', 'p']
  let https := ['h', 't', 't', 'p', 's']
  match afterScheme? http cs with
  | some rest => some (http, rest)
  | none => (afterScheme? https cs).map (https, ·)

/-- The address that a text writes. Characters that an address cannot hold are refused and not
encoded. -/
def parse? (text : String) : Option Url := do
  let (scheme, rest) ← splitScheme? text.toList
  let authority := rest.takeWhile (!isBreak ·)
  let target := (rest.dropWhile (!isBreak ·)).takeWhile (· ≠ '#')
  let path := target.takeWhile (· ≠ '?')
  let query := match target.dropWhile (· ≠ '?') with
    | [] => none
    | _ :: query => some query
  if text.utf8ByteSize ≤ sizeLimit && soundAuthority authority && path.all isPathChar &&
      (query.getD []).all isQueryChar then
    some ⟨scheme, authority, path, query⟩
  else none

/-- The path that is asked for, which is the root where the address has none. -/
def fullPath (url : Url) : List Char := if url.path.isEmpty then ['/'] else url.path

/-- The address without its query. -/
def place (url : Url) : String :=
  String.ofList (url.scheme ++ [':', '/', '/'] ++ url.authority ++ url.fullPath)

/-- Splits at each separator. -/
def pieces (sep : Char) : List Char → List (List Char)
  | [] => [[]]
  | c :: cs =>
    if c = sep then [] :: pieces sep cs
    else
      match pieces sep cs with
      | [] => [[c]]
      | piece :: rest => (c :: piece) :: rest

/-- The pairs of a query. An empty one at the end does not count. -/
def pairs (query : List Char) : List (List Char) :=
  let found := pieces '&' query
  if found.getLast? = some [] then found.dropLast else found

/-- A query from its pairs, with the question mark in front of it. -/
def joinPairs : List (List Char) → List Char
  | [] => []
  | pair :: rest => '?' :: (pair ++ rest.flatMap ('&' :: ·))

/-- What is asked for at the authority, with pairs added to the query. -/
def targetWith (url : Url) (extra : List (List Char)) : List Char :=
  match extra with
  | [] =>
    match url.query with
    | none => url.fullPath
    | some query => url.path ++ '?' :: query
  | extra => url.fullPath ++ joinPairs (pairs (url.query.getD []) ++ extra)

end Url

end Policy.Http
