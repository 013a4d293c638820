import Policy.Proofs.WellFormed
import Policy.Source.Grammar

namespace Policy

open Source

/-! ## Tokens of a printed policy

Operands of operators, of comparisons and of connectives stand in parentheses, and so do the
values of attributes. A branch always has both legs. -/

namespace Source

def parens (ts : List Token) : List Token := .mark .lparen :: (ts ++ [.mark .rparen])

def braces (ts : List Token) : List Token := .mark .lbrace :: (ts ++ [.mark .rbrace])

end Source

def Kind.keyword : Kind → Keyword
  | .string => .string
  | .number => .number

def Operator.token : Operator → Token
  | .plus => .mark .plus
  | .minus => .mark .minus
  | .times => .mark .star
  | .divide => .mark .slash
  | .regex => .keyword .matching

/-- The word for a decision. There is none for being undecided. -/
def Decision.token : Decision → Token
  | .permit => .keyword .permit
  | .deny => .keyword .deny
  | .undecided => .eof

/-- Parameters with a comma in front of each. -/
def paramTokens : List (String × String) → List Token
  | [] => []
  | (name, ref) :: params =>
    .mark .comma :: .name name :: .mark .eq :: .name ref :: paramTokens params

def Term.tokens : Term String → List Token
  | .string text => [.str text]
  | .number n => [.int n]
  | .attr ref => [.name ref]
  | .coerce operand kind => .keyword kind.keyword :: parens operand.tokens
  | .binary op lhs rhs => parens lhs.tokens ++ op.token :: parens rhs.tokens
  | .request key => [.keyword .request, .str key]
  | .rest url method params =>
    .keyword (.method method) :: .str url :: (paramTokens params).tail

def Condition.tokens : Condition String → List Token
  | .not inner => .keyword .not :: parens inner.tokens
  | .and lhs rhs => parens lhs.tokens ++ .keyword .and :: parens rhs.tokens
  | .or lhs rhs => parens lhs.tokens ++ .keyword .or :: parens rhs.tokens
  | .equal lhs rhs => parens lhs.tokens ++ .mark .eq :: parens rhs.tokens
  | .greater lhs rhs => parens lhs.tokens ++ .mark .gt :: parens rhs.tokens

mutual

def Rule.tokens : Rule String → List Token
  | .always decision => [.keyword .always, decision.token]
  | .never => [.keyword .never]
  | .when condition decision => decision.token :: .keyword .when :: condition.tokens
  | .branch condition onTrue onFalse =>
    .keyword .cond :: (condition.tokens ++ (onTrue.tokens ++ .keyword .otherwise :: onFalse.tokens))
  | .majority decision members =>
    .keyword .majority :: decision.token :: braces (Rule.memberTokens members).tail
  | .all decision members =>
    .keyword .all :: decision.token :: braces (Rule.memberTokens members).tail
  | .any decision members =>
    .keyword .any :: decision.token :: braces (Rule.memberTokens members).tail
  | .oneOf members => .keyword .exclusive :: braces (Rule.memberTokens members).tail

/-- Members with a comma in front of each. -/
def Rule.memberTokens : List (Rule String) → List Token
  | [] => []
  | rule :: rules => .mark .comma :: (rule.tokens ++ Rule.memberTokens rules)

end

def Attribute.tokens (a : Attribute String) : List Token :=
  .name a.name :: .mark .eq :: parens a.value.tokens

def RuleSet.tokens (set : RuleSet String) : List Token :=
  set.attributes.flatMap (·.tokens) ++ set.rules.flatMap (·.tokens)

/-! ## Nesting of a printed policy -/

/-- How many levels open inside of a printed term: one in parentheses, one more for a coercion. -/
def Term.nesting : Term String → Nat
  | .string _ | .number _ | .attr _ | .request _ | .rest _ _ _ => 0
  | .coerce operand _ => operand.nesting + 2
  | .binary _ lhs rhs => max lhs.nesting rhs.nesting + 1

def Condition.nesting : Condition String → Nat
  | .not inner => inner.nesting + 2
  | .and lhs rhs | .or lhs rhs => max lhs.nesting rhs.nesting + 1
  | .equal lhs rhs | .greater lhs rhs => max lhs.nesting rhs.nesting + 1

mutual

def Rule.nesting : Rule String → Nat
  | .always _ | .never => 0
  | .when condition _ => condition.nesting
  | .branch condition onTrue onFalse =>
    max condition.nesting (max onTrue.nesting onFalse.nesting) + 1
  | .majority _ members | .all _ members | .any _ members | .oneOf members =>
    Rule.memberNesting members + 1

def Rule.memberNesting : List (Rule String) → Nat
  | [] => 0
  | rule :: rules => max rule.nesting (Rule.memberNesting rules)

end

/-- All parts of a rule set nest at most so many levels. -/
structure RuleSet.NestsWithin (most : Nat) (set : RuleSet String) : Prop where
  attributes : ∀ a ∈ set.attributes, a.value.nesting + 1 ≤ most
  rules : ∀ r ∈ set.rules, r.nesting ≤ most

instance (most : Nat) (set : RuleSet String) : Decidable (set.NestsWithin most) :=
  decidable_of_iff ((∀ a ∈ set.attributes, a.value.nesting + 1 ≤ most) ∧
    ∀ r ∈ set.rules, r.nesting ≤ most) ⟨fun ⟨ha, hr⟩ => ⟨ha, hr⟩, fun h => ⟨h.1, h.2⟩⟩

/-! ## Text of a printed policy -/

namespace Source

/-- The content of a string between its quotes. -/
def quoted : List Char → List Char
  | [] => []
  | '"' :: cs => '\\' :: '"' :: quoted cs
  | '\\' :: cs => '\\' :: '\\' :: quoted cs
  | '\n' :: cs => '\\' :: 'n' :: quoted cs
  | c :: cs => c :: quoted cs

def Token.spelling : Token → List Char
  | .keyword k => k.text.toList
  | .name text => text.toList
  | .str text => '"' :: (quoted text.toList ++ ['"'])
  | .int n => Decimal.write n.val
  | .mark m => m.text.toList
  | .eof => []

/-- Tokens with a blank behind each. -/
def spelling (ts : List Token) : List Char := ts.flatMap fun t => t.spelling ++ [' ']

/-- The text of a rule set in its canonical form. -/
def print (set : RuleSet String) : String := String.ofList (spelling set.tokens)

end Source

end Policy
