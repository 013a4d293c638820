import Policy.Unicode.Blank
import Policy.Unicode.Fold
import Policy.Unicode.Script
import Policy.Unicode.Word

namespace Policy.Pattern

/-- A named property of characters. -/
inductive Property where
  | any
  | ascii
  | assigned
  | alphabetic
  | lowercase
  | uppercase
  | blank
  | category (codes : List String)
  | script (code : String)
  deriving DecidableEq

namespace Property

def holds : Property → Char → Bool
  | any, _ => true
  | ascii, c => c.toNat < 128
  | assigned, c => Unicode.Category.of c ≠ .unassigned
  | alphabetic, c => Unicode.isAlphabetic c
  | lowercase, c => Unicode.isLowercase c
  | uppercase, c => Unicode.isUppercase c
  | blank, c => Unicode.isBlank c
  | category codes, c => codes.contains (Unicode.Category.of c).code
  | script code, c => Unicode.Script.of c = code

/-- The number of ranges that the property is made of, roughly. -/
def size : Property → Nat
  | any => 1
  | ascii => 1
  | blank => 10
  | script _ => 20
  | category codes => 120 * codes.length
  | _ => 650

def isFiller (c : Char) : Bool := c = '_' || c = '-' || Unicode.isBlank c

/-- Names are compared without regard to case, blanks, hyphens, underscores and a leading `is`. -/
def normalized (name : String) : String :=
  let kept := (name.toList.filter fun c => !isFiller c && c.toNat < 128).map Char.toLower
  match kept with
  | ['i', 's', 'c'] => "isc"
  | 'i' :: 's' :: rest => String.ofList rest
  | kept => String.ofList kept

/-- The names of the general categories and of their groups, each with its members. -/
def categoryNames : List (List String × List String) := [
  (["c", "other"], ["Cc", "Cf", "Cn", "Co", "Cs"]),
  (["cc", "control", "cntrl"], ["Cc"]),
  (["cf", "format"], ["Cf"]),
  (["cn", "unassigned"], ["Cn"]),
  (["co", "privateuse"], ["Co"]),
  (["cs", "surrogate"], ["Cs"]),
  (["l", "letter"], ["Lu", "Ll", "Lt", "Lm", "Lo"]),
  (["lc", "casedletter"], ["Lu", "Ll", "Lt"]),
  (["ll", "lowercaseletter"], ["Ll"]),
  (["lm", "modifierletter"], ["Lm"]),
  (["lo", "otherletter"], ["Lo"]),
  (["lt", "titlecaseletter"], ["Lt"]),
  (["lu", "uppercaseletter"], ["Lu"]),
  (["m", "mark", "combiningmark"], ["Mn", "Mc", "Me"]),
  (["mc", "spacingmark"], ["Mc"]),
  (["me", "enclosingmark"], ["Me"]),
  (["mn", "nonspacingmark"], ["Mn"]),
  (["n", "number"], ["Nd", "Nl", "No"]),
  (["nd", "decimalnumber", "digit"], ["Nd"]),
  (["nl", "letternumber"], ["Nl"]),
  (["no", "othernumber"], ["No"]),
  (["p", "punctuation", "punct"], ["Pc", "Pd", "Ps", "Pe", "Pi", "Pf", "Po"]),
  (["pc", "connectorpunctuation"], ["Pc"]),
  (["pd", "dashpunctuation"], ["Pd"]),
  (["pe", "closepunctuation"], ["Pe"]),
  (["pf", "finalpunctuation"], ["Pf"]),
  (["pi", "initialpunctuation"], ["Pi"]),
  (["po", "otherpunctuation"], ["Po"]),
  (["ps", "openpunctuation"], ["Ps"]),
  (["s", "symbol"], ["Sm", "Sc", "Sk", "So"]),
  (["sc", "currencysymbol"], ["Sc"]),
  (["sk", "modifiersymbol"], ["Sk"]),
  (["sm", "mathsymbol"], ["Sm"]),
  (["so", "othersymbol"], ["So"]),
  (["z", "separator"], ["Zs", "Zl", "Zp"]),
  (["zl", "lineseparator"], ["Zl"]),
  (["zp", "paragraphseparator"], ["Zp"]),
  (["zs", "spaceseparator"], ["Zs"])]

def ofCategory? (name : String) : Option Property :=
  match name with
  | "any" => some any
  | "ascii" => some ascii
  | "assigned" => some assigned
  | name => (categoryNames.find? (·.1.contains name)).map fun (_, codes) => category codes

def ofScript? (name : String) : Option Property :=
  let named := Unicode.Script.names.find? fun (code, full) =>
    normalized code = name || normalized full = name
  named.map fun (code, _) => script code

/-- The property that a single name stands for. -/
def ofName? (name : String) : Option Property :=
  let name := normalized name
  match name with
  | "alphabetic" | "alpha" => some alphabetic
  | "lowercase" | "lower" => some lowercase
  | "uppercase" | "upper" => some uppercase
  | "whitespace" | "wspace" | "space" => some blank
  | name => ofCategory? name <|> ofScript? name

/-- The property that a name with a value stands for. -/
def ofPair? (name value : String) : Option Property :=
  match normalized name with
  | "gc" | "generalcategory" => ofCategory? (normalized value)
  | "sc" | "script" | "scx" | "scriptextensions" => ofScript? (normalized value)
  | _ => none

end Property

/-- A set of characters. -/
inductive CharSet where
  | none
  | range (low high : Char)
  | digit
  | blank
  | word
  | property (p : Property)
  | not (s : CharSet)
  | either (s t : CharSet)
  | both (s t : CharSet)
  /-- All that differs in case at most from a member, beyond ASCII only where `wide` says so. -/
  | fold (wide : Bool) (s : CharSet)
  deriving DecidableEq

namespace CharSet

/-- The ASCII character of the other case. -/
def otherCase (c : Char) : Char := if c.isUpper then c.toLower else c.toUpper

def contains : CharSet → Char → Bool
  | none, _ => false
  | range low high, c => low ≤ c && c ≤ high
  | digit, c => Unicode.isDigit c
  | blank, c => Unicode.isBlank c
  | word, c => Unicode.isWord c
  | property p, c => p.holds c
  | not s, c => !s.contains c
  | either s t, c => s.contains c || t.contains c
  | both s t, c => s.contains c && t.contains c
  | fold true s, c => s.contains c || (Unicode.variants c).any s.contains
  | fold false s, c => s.contains c || s.contains (otherCase c)

/-- The number of ranges that the set is made of, roughly. -/
def size : CharSet → Nat
  | none => 0
  | range _ _ => 1
  | digit => 65
  | blank => 10
  | word => 760
  | property p => p.size
  | not s => s.size + 1
  | either s t => s.size + t.size
  | both s t => max s.size t.size
  | fold _ s => s.size + 1

/-- Whether the set holds characters beyond ASCII, as far as its parts show. -/
def isWide : CharSet → Bool
  | none => false
  | range _ high => 128 ≤ high.toNat
  | property .ascii => false
  | not _ => true
  | either s t => s.isWide || t.isWide
  | both s t => s.isWide && t.isWide
  | fold _ s => s.isWide
  | _ => true

end CharSet

end Policy.Pattern
