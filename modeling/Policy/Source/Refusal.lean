import Policy.Source.Token

namespace Policy.Source

/-- Why a text is not a policy. -/
inductive Cause where
  | unclosedComment
  | unclosedString
  | unclosedEscape
  | integerRange (digits : String)
  | strayCharacter (c : Char)
  | unexpected (wanted : String) (found : Token)
  | reservedWord (k : Keyword)
  | repeatedParameter (name : String)
  | tooDeep (limit : Nat)
  deriving DecidableEq

def Cause.message : Cause → String
  | unclosedComment => "unterminated block comment"
  | unclosedString => "unterminated string literal"
  | unclosedEscape => "unterminated escape in string"
  | integerRange digits => "integer literal '" ++ digits ++ "' out of range"
  | strayCharacter c => "unexpected character '" ++ c.toString ++ "'"
  | unexpected wanted found => "expected " ++ wanted ++ ", got " ++ found.describe
  | reservedWord k => "'" ++ k.text ++ "' is a reserved word and cannot be used as a name"
  | repeatedParameter name => "duplicate REST parameter '" ++ name ++ "'"
  | tooDeep limit => "nesting too deep (more than " ++ Decimal.text limit ++ " levels)"

structure Refusal where
  pos : Position
  cause : Cause
  deriving DecidableEq

/-- The message that names the file, the place and the cause. -/
def Refusal.message (file : String) (r : Refusal) : String :=
  file ++ ":" ++ Decimal.text r.pos.line ++ ":" ++ Decimal.text r.pos.column ++
    ": syntax error: " ++ r.cause.message

end Policy.Source
