import Policy.Term

namespace Policy.Source

/-- The reserved words. None of them can name an attribute. -/
inductive Keyword where
  | always
  | never
  | permit
  | deny
  | when
  | cond
  | otherwise
  | majority
  | any
  | all
  | exclusive
  | not
  | and
  | or
  | string
  | number
  | request
  | matching
  | method (m : Method)
  deriving DecidableEq

namespace Keyword

def text : Keyword → String
  | always => "always"
  | never => "never"
  | permit => "permit"
  | deny => "deny"
  | when => "when"
  | cond => "if"
  | otherwise => "else"
  | majority => "majority"
  | any => "any"
  | all => "all"
  | exclusive => "exclusive"
  | not => "not"
  | and => "and"
  | or => "or"
  | string => "string"
  | number => "number"
  | request => "request"
  | matching => "matches"
  | method m => m.name

def list : List Keyword :=
  [always, never, permit, deny, when, cond, otherwise, majority, any, all, exclusive, not, and, or,
    string, number, request, matching, method .get, method .post, method .put, method .delete]

def ofText? (word : String) : Option Keyword := list.find? (·.text = word)

theorem ofText_text (k : Keyword) : ofText? k.text = some k := by
  cases k with
  | method m => cases m <;> decide
  | _ => decide

theorem text_of_ofText {word : String} {k : Keyword} (h : ofText? word = some k) :
    k.text = word := by
  simpa using List.find?_some h

end Keyword

/-- Signs of one or two characters. -/
inductive Mark where
  | lbrace
  | rbrace
  | lparen
  | rparen
  | comma
  | eq
  | neq
  | lt
  | lte
  | gt
  | gte
  | plus
  | minus
  | star
  | slash
  deriving DecidableEq

def Mark.text : Mark → String
  | lbrace => "\x7b"
  | rbrace => "\x7d"
  | lparen => "("
  | rparen => ")"
  | comma => ","
  | eq => "="
  | neq => "!="
  | lt => "<"
  | lte => "<="
  | gt => ">"
  | gte => ">="
  | plus => "+"
  | minus => "-"
  | star => "*"
  | slash => "/"

/-- The smallest units of policy text. Every text ends with the token `eof`. -/
inductive Token where
  | keyword (k : Keyword)
  | name (text : String)
  | str (text : String)
  | int (n : Number)
  | mark (m : Mark)
  | eof
  deriving DecidableEq

namespace Token

def ofWord (word : String) : Token :=
  match Keyword.ofText? word with
  | some k => keyword k
  | none => name word

/-- Whether a term can end with this token. A minus after such a token is subtraction and not the
sign of a number. -/
def endsTerm : Token → Bool
  | name _ | str _ | int _ | mark .rparen => true
  | _ => false

/-- How messages speak of a token. -/
def describe : Token → String
  | keyword k => "keyword '" ++ k.text ++ "'"
  | name text => "identifier '" ++ text ++ "'"
  | str text => "string \"" ++ text ++ "\""
  | int n => "number " ++ n.text
  | mark m => "'" ++ m.text ++ "'"
  | eof => "end of input"

end Token

/-- Lines and columns count from one, columns in characters. They have no bound here. Counters of 32
bits agree with them on texts of fewer than 2 ^ 32 - 1 characters, where neither of the two comes to
2 ^ 32. -/
@[ext] structure Position where
  line : Nat
  column : Nat
  deriving DecidableEq

namespace Position

def start : Position := ⟨1, 1⟩

instance : Inhabited Position := ⟨start⟩

def right (p : Position) (width : Nat) : Position := ⟨p.line, p.column + width⟩

def after (p : Position) (c : Char) : Position :=
  if c = '\n' then ⟨p.line + 1, 1⟩ else p.right 1

/-- The position behind a text that starts here. -/
def behind (p : Position) (text : List Char) : Position := text.foldl after p

end Position

/-- A token and the position of its first character. -/
structure Located where
  token : Token
  pos : Position
  deriving DecidableEq

end Policy.Source
