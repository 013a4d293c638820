import Policy.Proofs.Source.Grouped.Term
import Policy.Proofs.Source.Definitions
import Policy.Proofs.Source.Lines
import Policy.Proofs.Source.Progress

namespace Policy.Source

/-! ## Clauses

A condition as it is written down: comparisons, negations and conditions in parentheses in one row,
with the words between them. -/

/-- The signs between the two terms of a comparison. -/
inductive Comparison where
  | eq
  | neq
  | gt
  | lt
  | gte
  | lte
  deriving DecidableEq

namespace Comparison

def mark : Comparison → Mark
  | eq => .eq
  | neq => .neq
  | gt => .gt
  | lt => .lt
  | gte => .gte
  | lte => .lte

def condition : Comparison → Term String → Term String → Condition String
  | eq, l, r => .equal l r
  | neq, l, r => .not (.equal l r)
  | gt, l, r => .greater l r
  | lt, l, r => .greater r l
  | gte, l, r => .or (.equal l r) (.greater l r)
  | lte, l, r => .or (.equal l r) (.greater r l)

theorem comparison_mark (sign : Comparison) :
    comparison? (.mark sign.mark) = some sign.condition := by
  cases sign with
  | _ => rfl

end Comparison

/-- The words between the clauses of a condition. -/
inductive Connective where
  | and
  | or
  deriving DecidableEq

namespace Connective

def token : Connective → Token
  | and => .keyword .and
  | or => .keyword .or

/-- A conjunction binds more tightly than a disjunction. -/
def tight : Connective → Bool
  | and => true
  | or => false

def join : Connective → Condition String → Condition String → Condition String
  | and => .and
  | or => .or

end Connective

mutual

/-- What stands between the words of a condition. A negation applies to one clause. -/
inductive Clause where
  | not (clause : Clause)
  | compared (lhs : Phrase) (sign : Comparison) (rhs : Phrase)
  | parens (clauses : Clauses)

/-- Clauses with words between them. -/
inductive Clauses where
  | one (c : Clause)
  | more (c : Clause) (word : Connective) (rest : Clauses)

end

mutual

def Clause.tokens : Clause → List Token
  | .not clause => .keyword .not :: clause.tokens
  | .compared lhs sign rhs => lhs.tokens ++ .mark sign.mark :: rhs.tokens
  | .parens clauses => Source.parens clauses.tokens

def Clauses.tokens : Clauses → List Token
  | .one c => c.tokens
  | .more c word rest => c.tokens ++ word.token :: rest.tokens

end

mutual

/-- The condition that a clause stands for. -/
def Clause.condition : Clause → Condition String
  | .not clause => .not clause.condition
  | .compared lhs sign rhs => sign.condition lhs.term rhs.term
  | .parens clauses => clauses.conditions.grouped Connective.tight Connective.join

def Clauses.conditions : Clauses → Series Connective (Condition String)
  | .one c => .one c.condition
  | .more c word rest => .more c.condition word rest.conditions

end

mutual

def Clause.WellFormed : Clause → Prop
  | .not clause => clause.WellFormed
  | .compared lhs _ rhs => lhs.WellFormed ∧ rhs.WellFormed
  | .parens clauses => clauses.WellFormed

def Clauses.WellFormed : Clauses → Prop
  | .one c => c.WellFormed
  | .more c _ rest => c.WellFormed ∧ rest.WellFormed

end

mutual

/-- How many levels open within each other. -/
def Clause.levels : Clause → Nat
  | .not clause => clause.levels + 1
  | .compared lhs _ rhs => max lhs.levels rhs.levels
  | .parens clauses => clauses.levels + 1

def Clauses.levels : Clauses → Nat
  | .one c => c.levels
  | .more c _ rest => max c.levels rest.levels

end

namespace Clauses

/-- The condition that clauses stand for. -/
def condition (clauses : Clauses) : Condition String :=
  clauses.conditions.grouped Connective.tight Connective.join

def series : Clauses → Series Connective Clause
  | one c => .one c
  | more c word rest => .more c word rest.series

theorem conditions_eq (clauses : Clauses) :
    clauses.conditions = clauses.series.map Clause.condition := by
  induction clauses using Clauses.series.induct with
  | case1 c => rfl
  | case2 c word rest ih =>
    rw [conditions, ih]
    rfl

theorem tokens_eq (clauses : Clauses) :
    clauses.tokens = clauses.series.tokens Clause.tokens Connective.token := by
  induction clauses using Clauses.series.induct with
  | case1 c =>
    rw [tokens]
    exact (List.append_nil _).symm
  | case2 c word rest ih =>
    rw [tokens, ih]
    exact (Series.tokens_more _ _ c word rest.series).symm

end Clauses

/-! ## Clauses are read as what they stand for -/

theorem strengths_connective :
    Strengths Connective.token Connective.tight Connective.join conjunction? disjunction? where
  within word h := by
    cases word with
    | and => rfl
    | or => cases h
  between word h := by
    cases word with
    | and => cases h
    | or => exact ⟨rfl, rfl⟩

namespace Token

/-- Tokens that a condition ends in front of. -/
def endsClauses : Token → Bool
  | .eof | .mark .rparen => true
  | _ => false

theorem endsPhrase_of_endsClauses {t : Token} (h : t.endsClauses = true) :
    t.endsPhrase = true := by
  unfold endsClauses at h
  split at h
  · rfl
  · rfl
  · cases h

theorem endsPhrase_connective (word : Connective) : word.token.endsPhrase = true := by
  cases word with
  | _ => rfl

theorem endsPhrase_comparison (sign : Comparison) : (mark sign.mark).endsPhrase = true := by
  cases sign with
  | _ => rfl

theorem conjunction_of_endsClauses {t : Token} (h : t.endsClauses = true) :
    conjunction? t = none := by
  unfold endsClauses at h
  split at h
  · rfl
  · rfl
  · cases h

theorem disjunction_of_endsClauses {t : Token} (h : t.endsClauses = true) :
    disjunction? t = none := by
  unfold endsClauses at h
  split at h
  · rfl
  · rfl
  · cases h

end Token

/-- A row of clauses, each of which is found where it stands. -/
theorem reads_clauses {clauses : Clauses} {limit : Option Nat} {depth : Nat} {behind : List Token}
    (h : clauses.series.Each Clause.tokens Connective.token
      (FoundBy (readUnary limit depth) Clause.tokens Clause.condition) behind)
    (hends : (next behind).endsClauses = true) :
    Reads (readCondition limit depth) (clauses.tokens ++ behind) behind clauses.condition := by
  rw [clauses.tokens_eq, Clauses.condition, clauses.conditions_eq]
  exact reads_chains strengths_connective h (Token.conjunction_of_endsClauses hends)
    (Token.disjunction_of_endsClauses hends)

mutual

/-- A clause in front of a word or of the end of a condition. There is room for all tokens, so that
what stands in parentheses is read as a condition of its own. -/
theorem reads_clause (c : Clause) (hw : c.WellFormed) {most depth room : Nat}
    (hdepth : depth + c.levels ≤ most) {behind : List Token}
    (hroom : c.tokens.length + behind.length < room) (hends : (next behind).endsPhrase = true) :
    Reads (readUnaryAt (some most) room depth) (c.tokens ++ behind) behind c.condition := by
  obtain ⟨room, rfl⟩ : ∃ k, room = k + 1 := ⟨room - 1, by omega⟩
  cases c with
  | not clause =>
    rw [Clause.levels] at hdepth
    rw [Clause.tokens, List.length_cons] at hroom
    have hclause : Reads (readUnaryAt (some most) room (depth + 1)) (clause.tokens ++ behind) behind
        clause.condition :=
      reads_clause clause hw (by omega) (by omega) hends
    exact reads_not (hclause.nested (by omega))
  | compared lhs sign rhs =>
    rw [Clause.levels] at hdepth
    have hleft : Reads (readTerm (some most) depth)
        (lhs.tokens ++ .mark sign.mark :: (rhs.tokens ++ behind)) _ lhs.term :=
      readTerm_phrase hw.1 (by omega) (Token.endsPhrase_comparison sign)
    have hright : Reads (readTerm (some most) depth) (rhs.tokens ++ behind) behind rhs.term :=
      readTerm_phrase hw.2 (by omega) hends
    rw [Clause.tokens, List.append_assoc]
    apply reads_unary_of_comparison room
    exact reads_comparison hleft sign.comparison_mark hright
  | parens clauses =>
    rw [Clause.levels] at hdepth
    rw [Clause.tokens, parens, List.length_cons, List.length_append, List.length_cons] at hroom
    have hclauses : Reads (readCondition (some most) (depth + 1))
        (clauses.tokens ++ .mark .rparen :: behind) (.mark .rparen :: behind) clauses.condition :=
      reads_clauses (each_clauses clauses hw (by omega) rfl) rfl
    apply reads_unary_group (by omega)
    intro located hl
    have hlength : located.length < room := by
      have hlength := congrArg List.length hl
      rw [List.length_map, List.length_append, List.length_cons] at hlength
      omega
    rw [readChoice_eq_readCondition (some most) hlength]
    exact hclauses located hl

theorem each_clauses (clauses : Clauses) (hw : clauses.WellFormed) {most depth : Nat}
    (hdepth : depth + clauses.levels ≤ most) {behind : List Token}
    (hends : (next behind).endsPhrase = true) :
    clauses.series.Each Clause.tokens Connective.token
      (FoundBy (readUnary (some most) depth) Clause.tokens Clause.condition) behind := by
  cases clauses with
  | one c =>
    apply Series.each_one
    refine reads_of_room (fun room => readUnaryAt (some most) room depth) fun room hroom => ?_
    rw [List.length_append] at hroom
    exact reads_clause c hw hdepth hroom hends
  | more c word rest =>
    rw [Clauses.levels] at hdepth
    refine Series.each_more ?_ (each_clauses rest hw.2 (by omega) hends)
    refine reads_of_room (fun room => readUnaryAt (some most) room depth) fun room hroom => ?_
    rw [List.length_append] at hroom
    exact reads_clause c hw.1 (by omega) hroom (Token.endsPhrase_connective word)

end

theorem readCondition_clauses {clauses : Clauses} (hw : clauses.WellFormed) {most depth : Nat}
    (hdepth : depth + clauses.levels ≤ most) {behind : List Token}
    (hends : (next behind).endsClauses = true) :
    Reads (readCondition (some most) depth) (clauses.tokens ++ behind) behind clauses.condition :=
  reads_clauses (each_clauses clauses hw hdepth (Token.endsPhrase_of_endsClauses hends)) hends

/-! ## Whole texts -/

/-- The reader takes all of the tokens and comes to `x`, and so it does with each text of them. -/
structure ReadWhole {α : Type} (reader : Reader α) (ts : List Token) (x : α) : Prop where
  tokens : Reads reader (ts ++ [.eof]) [.eof] x
  texts : ∀ text, tokensOf text = ts → readWhole reader text = .ok x

theorem readWhole_of_tokens {α : Type} {reader : Reader α} {ts : List Token} {x : α}
    (hne : ts ≠ []) (h : Reads reader (ts ++ [.eof]) [.eof] x) : ReadWhole reader ts x where
  tokens := h
  texts text htext := by
    obtain ⟨located, hscan⟩ := exists_scan_of_tokensOf htext hne
    have hl : located.map (·.token) = ts ++ [.eof] := by
      rw [(map_of_scan hscan).1, htext]
    exact readWhole_of_reads hscan hl h

theorem tokens_operands_ne_nil (operands : Operands) : operands.tokens ≠ [] := by
  have hoperand (a : Operand) : a.tokens ≠ [] := by
    cases a with
    | _ => exact List.cons_ne_nil _ _
  cases operands with
  | one a => exact hoperand a
  | more a sign rest => exact List.append_ne_nil_of_left_ne_nil (hoperand a) _

theorem tokens_phrase_ne_nil (p : Phrase) : p.tokens ≠ [] := by
  cases p with
  | sum operands => exact tokens_operands_ne_nil operands
  | matching subject pattern =>
    exact List.append_ne_nil_of_left_ne_nil (tokens_operands_ne_nil subject) _

theorem tokens_clauses_ne_nil (clauses : Clauses) : clauses.tokens ≠ [] := by
  have hclause (c : Clause) : c.tokens ≠ [] := by
    cases c with
    | not clause | parens clauses => exact List.cons_ne_nil _ _
    | compared lhs sign rhs =>
      exact List.append_ne_nil_of_left_ne_nil (tokens_phrase_ne_nil lhs) _
  cases clauses with
  | one c => exact hclause c
  | more c word rest => exact List.append_ne_nil_of_left_ne_nil (hclause c) _

/-- Rows of operands and of clauses, however long, are read to their end and as they group. Of the
signs of a term, `*` and `/` bind their operands first, then `+` and `-`, each from the left, and a
match joins what stands on its two sides. In a condition, negations bind one clause, then `and` and
then `or` join from the left. -/
theorem rows_read_as_grouped :
    (∀ p : Phrase, p.WellFormed → p.levels ≤ 128 →
      ReadWhole (readTerm nestingLimit 0) p.tokens p.term) ∧
    ∀ clauses : Clauses, clauses.WellFormed → clauses.levels ≤ 128 →
      ReadWhole (readCondition nestingLimit 0) clauses.tokens clauses.condition := by
  constructor
  · intro p hw hlevels
    apply readWhole_of_tokens (tokens_phrase_ne_nil p)
    exact readTerm_phrase hw (by omega) rfl
  · intro clauses hw hlevels
    apply readWhole_of_tokens (tokens_clauses_ne_nil clauses)
    exact readCondition_clauses hw (by omega) rfl

/-- The row `a - b * (c + "d") / e - f matches g` -/
def mixedPhrase : Phrase :=
  .matching
    (.more (.name "a") .minus <| .more (.name "b") .times <|
      .more (.parens (.sum (.more (.name "c") .plus (.one (.string "d"))))) .divide <|
      .more (.name "e") .minus <| .one (.name "f"))
    (.one (.name "g"))

/-- The row `not a = b or c > d and not (e < f) or "x" * string "y" + "z" <= g` -/
def mixedClauses : Clauses :=
  .more (.not (.compared (.sum (.one (.name "a"))) .eq (.sum (.one (.name "b"))))) .or <|
    .more (.compared (.sum (.one (.name "c"))) .gt (.sum (.one (.name "d")))) .and <|
    .more (.not (.parens (.one (.compared (.sum (.one (.name "e"))) .lt
      (.sum (.one (.name "f"))))))) .or <|
    .one (.compared
      (.sum (.more (.string "x") .times <|
        .one (.coercion .string (.sum (.more (.string "y") .plus (.one (.string "z")))))))
      .lte (.sum (.one (.name "g"))))

theorem mixed_read_as_grouped :
    (mixedPhrase.WellFormed ∧ mixedPhrase.levels ≤ 128 ∧
      termOf "a - b * (c + \"d\") / e - f matches g" =
        .ok (.binary .regex
          (.binary .minus
            (.binary .minus (.attr "a")
              (.binary .divide
                (.binary .times (.attr "b") (.binary .plus (.attr "c") (.string "d")))
                (.attr "e")))
            (.attr "f"))
          (.attr "g"))) ∧
    (mixedClauses.WellFormed ∧ mixedClauses.levels ≤ 128 ∧
      conditionOf "not a = b or c > d and not (e < f) or \"x\" * string \"y\" + \"z\" <= g" =
        .ok (.or
          (.or (.not (.equal (.attr "a") (.attr "b")))
            (.and (.greater (.attr "c") (.attr "d"))
              (.not (.greater (.attr "f") (.attr "e")))))
          (Comparison.lte.condition
            (.binary .times (.string "x")
              (.coerce (.binary .plus (.string "y") (.string "z")) .string))
            (.attr "g")))) := by
  have hp : mixedPhrase.WellFormed := by simp [mixedPhrase, Phrase.WellFormed,
    Operands.WellFormed, Operand.WellFormed, Operands.lastCoerces, Operand.coerces]
  have hc : mixedClauses.WellFormed := by simp [mixedClauses, Clauses.WellFormed,
    Clause.WellFormed, Phrase.WellFormed, Operands.WellFormed, Operand.WellFormed, Operand.coerces]
  have hpl : mixedPhrase.levels ≤ 128 := by decide
  have hcl : mixedClauses.levels ≤ 128 := by decide
  refine ⟨⟨hp, hpl, ?_⟩, hc, hcl, ?_⟩
  · exact (rows_read_as_grouped.1 mixedPhrase hp hpl).texts _ (by decide +kernel)
  · exact (rows_read_as_grouped.2 mixedClauses hc hcl).texts _ (by decide +kernel)

end Policy.Source
