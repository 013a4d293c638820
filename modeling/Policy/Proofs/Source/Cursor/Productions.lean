import Policy.Proofs.Source.Cursor.Rule
import Policy.Proofs.Source.Layout

namespace Policy.Source

open Walk

/-- A production at a cursor. It ends as the reader does with the tokens from there on: with a
result behind the token that it started with and not behind the last one, with a refusal somewhere
among the tokens, and either way with as many levels open as before. -/
def Progresses {α : Type} (tokens : List Located) (c : Cursor) (walk : Walk α)
    (reader : Nat → Reader α) : Prop :=
  Arrives tokens c.depth (c.pos + 1) (walk.run.run c) (reader c.depth (tokens.drop c.pos))

/-- Every production progresses from the cursor on. An attempt at a group that finds none leaves the
cursor at the parenthesis that it started with, with as many levels open as there. -/
structure Productive (tokens : List Located) (limit : Option Nat) (fuel : Nat) (c : Cursor) :
    Prop where
  parameters (seen : List String) : (parameter? (tokens.drop c.pos)).isSome →
    Progresses tokens c (Walk.parametersFrom tokens fuel seen)
      fun _ => readParameters tokens.length seen
  call (method : Method) :
    Progresses tokens c (Walk.call tokens fuel method) fun _ => readCall method
  atom : Progresses tokens c (Walk.atom tokens fuel (Walk.nested tokens limit
    (Walk.term tokens limit fuel))) fun depth => readAtom (nested limit depth (readTerm limit))
  product : Progresses tokens c (Walk.product tokens fuel (Walk.nested tokens limit
    (Walk.term tokens limit fuel))) fun depth =>
      chain (readAtom (nested limit depth (readTerm limit))) factorSign?
  sum : Progresses tokens c (Walk.sum tokens fuel (Walk.nested tokens limit
    (Walk.term tokens limit fuel))) fun depth => readSum (nested limit depth (readTerm limit))
  term : Progresses tokens c (Walk.term tokens limit fuel) (readTerm limit)
  comparison : Progresses tokens c (Walk.comparison tokens (Walk.term tokens limit fuel))
    fun depth => readComparison (readTerm limit depth)
  group : Source.peek (tokens.drop c.pos) = .mark .lparen →
    Attempted tokens c ((Walk.attempt tokens (Walk.nested tokens limit
      (Walk.condition tokens limit fuel))).run.run c)
      (grouped? (nested limit c.depth (readCondition limit)) (tokens.drop (c.pos + 1)))
  unary : Progresses tokens c (Walk.unary tokens limit fuel) (readUnary limit)
  conjunctions : Progresses tokens c (Walk.conjunctions tokens fuel
    (Walk.unary tokens limit fuel)) fun depth => chain (readUnary limit depth) conjunction?
  condition : Progresses tokens c (Walk.condition tokens limit fuel) (readCondition limit)
  decision : Progresses tokens c (Walk.decision tokens) fun _ => readDecision
  block : Progresses tokens c (Walk.block tokens limit fuel (Walk.rule tokens limit fuel))
    fun depth => readBlock limit depth (readRule limit)
  rule : Progresses tokens c (Walk.rule tokens limit fuel) (readRule limit)
  definition : Progresses tokens c (Walk.definition tokens limit fuel) (readAttributeAt limit)

namespace Productive

variable {tokens : List Located} {limit : Option Nat} {fuel : Nat} {c : Cursor}

theorem progresses {α : Type} {walk : Walk α} {reader : Nat → Reader α}
    (hpos : c.pos < tokens.length) (h : Tracks tokens 0 c.depth walk (reader c.depth)) :
    Progresses tokens c walk reader :=
  h c.pos (Nat.zero_le _) hpos

theorem of_ended (hended : Ended tokens) (limit : Option Nat) (hfuel : tokens.length ≤ fuel)
    (hpos : c.pos < tokens.length) : Productive tokens limit fuel c := by
  have hterm (low : Nat) : Tracks tokens low c.depth (Walk.term tokens limit fuel)
      (readTerm limit c.depth) := tracks_term hended (by omega)
  have hinner : Tracks tokens 1 c.depth (Walk.nested tokens limit (Walk.term tokens limit fuel))
      (nested limit c.depth (readTerm limit)) := .nested (tracks_term hended (by omega))
  have hunary : Tracks tokens 0 c.depth (Walk.unary tokens limit fuel) (readUnary limit c.depth) :=
    tracks_unary hended hfuel
  exact {
    parameters := fun seen hstarts =>
      arrives_parametersFrom hended hstarts (by omega) (Nat.le_add_right _ _)
    call := fun method => progresses hpos (tracks_call hended hfuel method)
    atom := progresses hpos (tracks_atom hended hfuel hinner)
    product := progresses hpos (tracks_product hended hfuel hinner)
    sum := progresses hpos (tracks_sum hended hfuel hinner)
    term := progresses hpos (hterm 0)
    comparison := progresses hpos (tracks_comparison hended (hterm 0))
    group := by
      intro hparen
      obtain ⟨t, p, ht⟩ := exists_drop_eq_cons hpos
      rw [ht] at hparen
      obtain rfl : t = .mark .lparen := hparen
      exact attempted hended (.nested (tracks_condition hended (by omega))) (Nat.zero_le _) ht
    unary := progresses hpos hunary
    conjunctions := progresses hpos (tracks_conjunctions hended hunary hfuel)
    condition := progresses hpos (tracks_condition hended hfuel)
    decision := progresses hpos (tracks_decision hended)
    block := progresses hpos (tracks_block hended (tracks_rule hended (by omega)) hfuel)
    rule := progresses hpos (tracks_rule hended hfuel)
    definition := progresses hpos (tracks_definition hended hfuel) }

end Productive

/-- On the tokens of a text every production progresses, wherever the cursor stands and however many
levels are open, and the loops over attributes and over rules come to an end. -/
theorem productions_progress {text : String} {tokens : List Located}
    (hscan : scan text = .ok tokens) (limit : Option Nat) {fuel : Nat}
    (hfuel : tokens.length ≤ fuel) :
    (∀ c : Cursor, c.pos < tokens.length → Productive tokens limit fuel c) ∧
      Arrives tokens 0 0 ((Walk.ruleSet tokens limit fuel).run.run ⟨0, 0⟩)
        (readRuleSet limit tokens) := by
  have hended := ended_of_scan hscan
  have hpos : 0 < tokens.length := by
    obtain ⟨body, p, rfl⟩ := hended
    simp
  refine ⟨fun c hc => .of_ended hended limit hfuel hc, ?_⟩
  exact arrives_ruleSet hended hpos hfuel

/-- A term in parentheses, where a condition in parentheses is tried first. -/
def parenthesized : List Char := "permit when (a) = b".toList

def parenthesizedTokens : List Located :=
  [⟨.keyword .permit, ⟨1, 1⟩⟩, ⟨.keyword .when, ⟨1, 8⟩⟩, ⟨.mark .lparen, ⟨1, 13⟩⟩,
    ⟨.name "a", ⟨1, 14⟩⟩, ⟨.mark .rparen, ⟨1, 15⟩⟩, ⟨.mark .eq, ⟨1, 17⟩⟩, ⟨.name "b", ⟨1, 19⟩⟩,
    ⟨.eof, ⟨1, 20⟩⟩]

/-- The attempt at a group reads the name and the parenthesis behind it, and goes back to the one in
front, three levels deep as before. -/
theorem parenthesized_progresses :
    scan (String.ofList parenthesized) = .ok parenthesizedTokens ∧
      Productive parenthesizedTokens nestingLimit 8 ⟨2, 3⟩ ∧
      (Walk.attempt parenthesizedTokens (Walk.nested parenthesizedTokens nestingLimit
        (Walk.condition parenthesizedTokens nestingLimit 8))).run.run ⟨2, 3⟩ =
          .ok (.ok none, ⟨2, 3⟩) ∧
      Arrives parenthesizedTokens 0 0
        ((Walk.ruleSet parenthesizedTokens nestingLimit 8).run.run ⟨0, 0⟩)
        (readRuleSet nestingLimit parenthesizedTokens) := by
  have hscan : scan (String.ofList parenthesized) = .ok parenthesizedTokens := by
    rewrite [scan_ofList]
    rfl
  obtain ⟨hall, hwhole⟩ := productions_progress hscan nestingLimit (Nat.le_refl 8)
  exact ⟨hscan, hall ⟨2, 3⟩ (by decide), rfl, hwhole⟩

end Policy.Source
