import Policy.Proofs.Source.Grouped.Series
import Policy.Proofs.Source.Printed.Term

namespace Policy.Source

/-! ## Phrases

A term as it is written down, with no more parentheses than it has. Operands and signs stand in one
row, and nothing tells yet how they group. -/

/-- The signs between the operands of a term. -/
inductive Sign where
  | plus
  | minus
  | times
  | divide
  deriving DecidableEq

namespace Sign

def operator : Sign → Operator
  | plus => .plus
  | minus => .minus
  | times => .times
  | divide => .divide

def token (sign : Sign) : Token := sign.operator.token

/-- Multiplication and division bind more tightly than addition and subtraction. -/
def tight : Sign → Bool
  | times | divide => true
  | plus | minus => false

def join (sign : Sign) : Term String → Term String → Term String := .binary sign.operator

end Sign

mutual

/-- What stands between the signs of a term. -/
inductive Operand where
  | string (text : String)
  | number (n : Number)
  | name (text : String)
  | request (key : String)
  | call (method : Method) (url : String) (params : List (String × String))
  | coercion (kind : Kind) (phrase : Phrase)
  | parens (phrase : Phrase)

/-- Operands with signs between them. -/
inductive Operands where
  | one (a : Operand)
  | more (a : Operand) (sign : Sign) (rest : Operands)

/-- Operands, or two rows of them the first one of which is matched against the second one. -/
inductive Phrase where
  | sum (operands : Operands)
  | matching (subject pattern : Operands)

end

mutual

def Operand.tokens : Operand → List Token
  | .string text => [.str text]
  | .number n => [.int n]
  | .name text => [.name text]
  | .request key => [.keyword .request, .str key]
  | .call method url params => .keyword (.method method) :: .str url :: (paramTokens params).tail
  | .coercion kind phrase => .keyword kind.keyword :: phrase.tokens
  | .parens phrase => Source.parens phrase.tokens

def Operands.tokens : Operands → List Token
  | .one a => a.tokens
  | .more a sign rest => a.tokens ++ sign.token :: rest.tokens

def Phrase.tokens : Phrase → List Token
  | .sum operands => operands.tokens
  | .matching subject pattern => subject.tokens ++ .keyword .matching :: pattern.tokens

end

mutual

/-- The term that an operand stands for. -/
def Operand.term : Operand → Term String
  | .string text => .string text
  | .number n => .number n
  | .name text => .attr text
  | .request key => .request key
  | .call method url params => .rest url method params
  | .coercion kind phrase => .coerce phrase.term kind
  | .parens phrase => phrase.term

def Operands.terms : Operands → Series Sign (Term String)
  | .one a => .one a.term
  | .more a sign rest => .more a.term sign rest.terms

/-- The term that a phrase stands for. The match is looked at last. -/
def Phrase.term : Phrase → Term String
  | .sum operands => operands.terms.grouped Sign.tight Sign.join
  | .matching subject pattern =>
    .binary .regex (subject.terms.grouped Sign.tight Sign.join)
      (pattern.terms.grouped Sign.tight Sign.join)

end

/-- Whether the operand takes in all that follows, signs and all. -/
def Operand.coerces : Operand → Bool
  | .coercion _ _ => true
  | _ => false

def Operands.lastCoerces : Operands → Bool
  | .one a => a.coerces
  | .more _ _ rest => rest.lastCoerces

mutual

/-- Parameters of a call have names of their own. -/
def Operand.WellFormed : Operand → Prop
  | .call _ _ params => (params.map Prod.fst).Nodup
  | .coercion _ phrase | .parens phrase => phrase.WellFormed
  | _ => True

/-- Nothing follows a coercion, which would have taken it in. -/
def Operands.WellFormed : Operands → Prop
  | .one a => a.WellFormed
  | .more a _ rest => a.WellFormed ∧ a.coerces = false ∧ rest.WellFormed

def Phrase.WellFormed : Phrase → Prop
  | .sum operands => operands.WellFormed
  | .matching subject pattern =>
    subject.WellFormed ∧ subject.lastCoerces = false ∧ pattern.WellFormed

end

mutual

/-- How many levels open within each other. -/
def Operand.levels : Operand → Nat
  | .coercion _ phrase | .parens phrase => phrase.levels + 1
  | _ => 0

def Operands.levels : Operands → Nat
  | .one a => a.levels
  | .more a _ rest => max a.levels rest.levels

def Phrase.levels : Phrase → Nat
  | .sum operands => operands.levels
  | .matching subject pattern => max subject.levels pattern.levels

end

namespace Operands

def series : Operands → Series Sign Operand
  | one a => .one a
  | more a sign rest => .more a sign rest.series

theorem terms_eq (operands : Operands) : operands.terms = operands.series.map Operand.term := by
  induction operands using Operands.series.induct with
  | case1 a => rfl
  | case2 a sign rest ih =>
    rw [terms, ih]
    rfl

theorem tokens_eq (operands : Operands) :
    operands.tokens = operands.series.tokens Operand.tokens Sign.token := by
  induction operands using Operands.series.induct with
  | case1 a =>
    rw [tokens]
    exact (List.append_nil _).symm
  | case2 a sign rest ih =>
    rw [tokens, ih]
    exact (Series.tokens_more _ _ a sign rest.series).symm

end Operands

/-! ## Phrases are read as what they stand for -/

theorem strengths_sign : Strengths Sign.token Sign.tight Sign.join factorSign? addendSign? where
  within sign h := by
    cases sign with
    | plus | minus => cases h
    | times | divide => rfl
  between sign h := by
    cases sign with
    | plus | minus => exact ⟨rfl, rfl⟩
    | times | divide => cases h

/-- Tokens that a phrase ends in front of, whatever its last operand is. -/
def Token.endsPhrase : Token → Bool
  | .eof | .mark .rparen | .keyword .and | .keyword .or => true
  | t => (comparison? t).isSome

namespace Token

theorem endsCall_of_endsPhrase {t : Token} (h : t.endsPhrase = true) : t.endsCall = true := by
  unfold endsCall
  split
  · cases h
  · cases h
  · rfl

theorem endsCall_sign (sign : Sign) : sign.token.endsCall = true := by
  cases sign with
  | _ => rfl

theorem factorSign_of_endsPhrase {t : Token} (h : t.endsPhrase = true) : factorSign? t = none := by
  unfold factorSign?
  split
  · cases h
  · cases h
  · rfl

theorem addendSign_of_endsPhrase {t : Token} (h : t.endsPhrase = true) : addendSign? t = none := by
  unfold addendSign?
  split
  · cases h
  · cases h
  · rfl

end Token

/-- The reader of operands at so many levels, inside of which at most `room` more open. -/
abbrev readOperandAt (most depth room : Nat) : Reader (Term String) :=
  readAtom (nested (some most) depth (readTermAt (some most) room))

/-- A row of operands, each of which is found where it stands. -/
theorem reads_operands {operands : Operands} {operand : Reader (Term String)} {behind : List Token}
    (h : operands.series.Each Operand.tokens Sign.token
      (FoundBy operand Operand.tokens Operand.term) behind)
    (hfactor : factorSign? (next behind) = none) (haddend : addendSign? (next behind) = none) :
    Reads (chain (chain operand factorSign?) addendSign?) (operands.tokens ++ behind) behind
      (operands.terms.grouped Sign.tight Sign.join) := by
  rw [operands.tokens_eq, operands.terms_eq]
  exact reads_chains strengths_sign h hfactor haddend

mutual

/-- An operand in front of tokens that are not parameters. A coercion takes in what follows it, so
it stands at the end of a phrase. -/
theorem reads_operand (a : Operand) (hw : a.WellFormed) {most depth room : Nat}
    (hdepth : depth + a.levels ≤ most) (hroom : a.tokens.length ≤ room) {behind : List Token}
    (hcall : (next behind).endsCall = true)
    (hends : a.coerces = true → (next behind).endsPhrase = true) :
    Reads (readOperandAt most depth room) (a.tokens ++ behind) behind a.term := by
  cases a with
  | string text | number n | name text =>
    intro located hl
    obtain ⟨p, rest, rfl, hr⟩ := exists_of_map_cons hl
    exact ⟨rest, hr, rfl⟩
  | request key =>
    intro located hl
    obtain ⟨p, after, rfl, hafter⟩ := exists_of_map_cons hl
    obtain ⟨q, rest, rfl, hr⟩ := exists_of_map_cons hafter
    exact ⟨rest, hr, rfl⟩
  | call method url params => exact reads_call hw hcall
  | coercion kind phrase =>
    rw [Operand.levels] at hdepth
    rw [Operand.tokens, List.length_cons] at hroom
    have hphrase : Reads (readTermAt (some most) room (depth + 1)) (phrase.tokens ++ behind) behind
        phrase.term :=
      reads_phrase phrase hw (by omega) (by omega) (hends rfl)
    exact reads_coerce kind (hphrase.nested (by omega))
  | parens phrase =>
    rw [Operand.levels] at hdepth
    rw [Operand.tokens, parens, List.length_cons, List.length_append, List.length_cons] at hroom
    have hphrase : Reads (readTermAt (some most) room (depth + 1))
        (phrase.tokens ++ .mark .rparen :: behind) (.mark .rparen :: behind) phrase.term :=
      reads_phrase phrase hw (by omega) (by omega) rfl
    exact reads_paren (hphrase.nested (by omega))

theorem each_operands (operands : Operands) (hw : operands.WellFormed) {most depth room : Nat}
    (hdepth : depth + operands.levels ≤ most) (hroom : operands.tokens.length ≤ room)
    {behind : List Token} (hcall : (next behind).endsCall = true)
    (hends : operands.lastCoerces = true → (next behind).endsPhrase = true) :
    operands.series.Each Operand.tokens Sign.token
      (FoundBy (readOperandAt most depth room) Operand.tokens Operand.term) behind := by
  cases operands with
  | one a => exact Series.each_one (reads_operand a hw hdepth hroom hcall hends)
  | more a sign rest =>
    obtain ⟨ha, hopen, hrest⟩ := hw
    rw [Operands.levels] at hdepth
    rw [Operands.tokens, List.length_append, List.length_cons] at hroom
    refine Series.each_more ?_ (each_operands rest hrest (by omega) (by omega) hcall hends)
    refine reads_operand a ha (by omega) (by omega) (Token.endsCall_sign sign) fun hcoerces => ?_
    rw [hopen] at hcoerces
    cases hcoerces

theorem reads_phrase (p : Phrase) (hw : p.WellFormed) {most depth room : Nat}
    (hdepth : depth + p.levels ≤ most) (hroom : p.tokens.length < room) {behind : List Token}
    (hends : (next behind).endsPhrase = true) :
    Reads (readTermAt (some most) room depth) (p.tokens ++ behind) behind p.term := by
  have hcall := Token.endsCall_of_endsPhrase hends
  have hfactor := Token.factorSign_of_endsPhrase hends
  have haddend := Token.addendSign_of_endsPhrase hends
  have hmatching : next behind ≠ .keyword .matching := by
    intro hnext
    rw [hnext] at hends
    cases hends
  obtain ⟨room, rfl⟩ : ∃ k, room = k + 1 := ⟨room - 1, by omega⟩
  cases p with
  | sum operands =>
    have heach := each_operands operands hw hdepth (Nat.le_of_lt_succ hroom) hcall fun _ => hends
    exact reads_subject (reads_operands heach hfactor haddend) hmatching
  | matching subject pattern =>
    obtain ⟨hsubject, hopen, hpattern⟩ := hw
    rw [Phrase.levels] at hdepth
    rw [Phrase.tokens, List.length_append, List.length_cons] at hroom
    have hfirst : subject.series.Each Operand.tokens Sign.token
        (FoundBy (readOperandAt most depth room) Operand.tokens Operand.term)
        (.keyword .matching :: (pattern.tokens ++ behind)) := by
      refine each_operands subject hsubject (by omega) (by omega) rfl fun hcoerces => ?_
      rw [hopen] at hcoerces
      cases hcoerces
    have hlast : pattern.series.Each Operand.tokens Sign.token
        (FoundBy (readOperandAt most depth room) Operand.tokens Operand.term) behind :=
      each_operands pattern hpattern (by omega) (by omega) hcall fun _ => hends
    rw [Phrase.tokens, List.append_assoc]
    exact reads_matching (reads_operands hfirst rfl rfl) (reads_operands hlast hfactor haddend)

end

theorem readTerm_phrase {p : Phrase} (hw : p.WellFormed) {most depth : Nat}
    (hdepth : depth + p.levels ≤ most) {behind : List Token}
    (hends : (next behind).endsPhrase = true) :
    Reads (readTerm (some most) depth) (p.tokens ++ behind) behind p.term := by
  refine reads_of_room (fun room => readTermAt (some most) room depth) fun room hroom => ?_
  rw [List.length_append] at hroom
  exact reads_phrase p hw hdepth (by omega) hends

end Policy.Source
