import Policy.Proofs.Source.Regrouped

namespace Policy.Source

variable {α : Type}

/-! ## Reading under a larger limit

A limit refuses policies. It never changes how one is read: a condition in parentheses that it cuts
is no term, so that the second reading of the parenthesis fails as well. -/

/-- Whatever the reader takes, the other one takes, and reads the same. -/
def KeptBy (reader other : Reader α) : Prop :=
  ∀ ts x rest, reader ts = .ok (x, rest) → other ts = .ok (x, rest)

section Limit

variable {limit larger : Option Nat} {reader other : Reader α}

theorem allows_some {less most : Nat} (h : less ≤ most) : Allows (some most) (some less) := by
  intro most' hmost
  cases hmost
  exact ⟨less, rfl, h⟩

theorem Cuts.keptBy (h : Cuts limit larger reader other) : KeptBy reader other :=
  fun ts _ _ hx => (h ts).kept _ hx

theorem Bounded.keptBy (h : Bounded limit reader other) : KeptBy reader other := by
  intro ts x rest hx
  have hlimited : Limited (TooDeep limit) (reader ts) (other ts) := .of_held (h ts) fun _ => id
  exact hlimited.kept _ hx

end Limit

/-- What is read under a limit is read alike under a larger one, or under none: rule sets,
attributes, and terms, conditions and rules at any depth. -/
theorem larger_limit_reads_alike {limit larger : Option Nat} (hl : Allows larger limit) :
    KeptBy (readRuleSet limit) (readRuleSet larger) ∧
      KeptBy (readAttribute limit) (readAttribute larger) ∧
      ∀ depth, KeptBy (readTerm limit depth) (readTerm larger depth) ∧
        KeptBy (readCondition limit depth) (readCondition larger depth) ∧
        KeptBy (readRule limit depth) (readRule larger depth) := by
  refine ⟨(cuts_readRuleSet hl).keptBy, (cuts_readAttribute hl).keptBy, fun depth => ?_⟩
  exact ⟨(bounded_readTerm hl depth).keptBy, (cuts_readCondition hl depth).keptBy,
    (cuts_readRule hl depth).keptBy⟩

/-- The tokens of `permit when ((a)) = b and (a = b)`, all at one place. -/
def groupedTokens : List Located :=
  [.keyword .permit, .keyword .when, .mark .lparen, .mark .lparen, .name "a", .mark .rparen,
    .mark .rparen, .mark .eq, .name "b", .keyword .and, .mark .lparen, .name "a", .mark .eq,
    .name "b", .mark .rparen, .eof].map fun t => ⟨t, .start⟩

def groupedSet : RuleSet String :=
  ⟨[], [.when (.and (.equal (.attr "a") (.attr "b")) (.equal (.attr "a") (.attr "b"))) .permit]⟩

/-- Two levels are enough for a term in two parentheses, which is tried as a condition first. -/
theorem groupedTokens_read_alike :
    readRuleSet (some 2) groupedTokens = .ok (groupedSet, [⟨.eof, .start⟩]) ∧
      Allows (some 3) (some 2) ∧
      readRuleSet (some 3) groupedTokens = .ok (groupedSet, [⟨.eof, .start⟩]) := by
  have hless : readRuleSet (some 2) groupedTokens = .ok (groupedSet, [⟨.eof, .start⟩]) := by
    decide +kernel
  have hallows : Allows (some 3) (some 2) := allows_some (by decide)
  exact ⟨hless, hallows, (larger_limit_reads_alike hallows).1 _ _ _ hless⟩

end Policy.Source
