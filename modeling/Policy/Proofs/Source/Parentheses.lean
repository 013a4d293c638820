import Policy.Proofs.Source.Widened

namespace Policy.Source

variable {α : Type}

/-! ## Readers that keep what others read -/

namespace KeptBy

variable {reader other operand operand' : Reader α} {op : Token → Option (α → α → α)}

theorem refl (reader : Reader α) : KeptBy reader reader := fun _ _ _ => id

theorem nested {limit : Option Nat} {depth : Nat} {inner inner' : Nat → Reader α}
    (h : KeptBy (inner (depth + 1)) (inner' (depth + 1))) :
    KeptBy (Source.nested limit depth inner) (Source.nested limit depth inner') := by
  intro ts x rest hx
  rw [nested_of_ok hx inner']
  rw [nested_of_ok hx inner] at hx
  exact h ts x rest hx

theorem chainFrom (h : KeptBy operand operand') (room : Nat) (left : α) :
    KeptBy (chainFrom operand op room left) (Source.chainFrom operand' op room left) := by
  induction room generalizing left with
  | zero => exact .refl _
  | succ room ih =>
    intro ts x rest hx
    simp only [Source.chainFrom] at hx ⊢
    split at hx
    · exact hx
    · obtain ⟨⟨right, after⟩, hr, hx⟩ := bind_ok_iff.mp hx
      exact bind_ok_iff.mpr ⟨_, h _ _ _ hr, ih _ _ _ _ hx⟩

theorem chain (h : KeptBy operand operand') :
    KeptBy (chain operand op) (Source.chain operand' op) := by
  intro ts x rest hx
  obtain ⟨⟨first, after⟩, hf, hx⟩ := bind_ok_iff.mp hx
  exact bind_ok_iff.mpr ⟨_, h _ _ _ hf, h.chainFrom _ _ _ _ _ hx⟩

theorem readChoice {unary unary' : Reader (Condition String)} (h : KeptBy unary unary') :
    KeptBy (readChoice unary) (Source.readChoice unary') :=
  h.chain.chain

end KeptBy

/-! ## Comparisons first

A reader that takes an opening parenthesis for the one of a term as long as it can. -/

/-- A condition and the parenthesis that closes it. -/
def readGrouped (group : Reader (Condition String)) : Reader (Condition String) := fun ts => do
  let (c, rest) ← group ts
  let rest ← expectMark .rparen "')'" rest
  pure (c, rest)

/-- A negation, a comparison or a group. The comparison is tried before the group. -/
def readUnaryComparingOver (negated group : Reader (Condition String))
    (term : Reader (Term String)) : Reader (Condition String)
  | ⟨.keyword .not, _⟩ :: rest => do
    let (c, rest) ← negated rest
    pure (.not c, rest)
  | ⟨.mark .lparen, p⟩ :: rest =>
    match readComparison term (⟨.mark .lparen, p⟩ :: rest) with
    | .ok found => .ok found
    | .error _ => readGrouped group rest
  | ts => readComparison term ts

/-- Reads a negation, comparison or group inside of which at most `room` levels open. -/
def readUnaryComparingAt (limit : Option Nat) : (room depth : Nat) → Reader (Condition String)
  | 0, _ => expected "term"
  | room + 1, depth =>
    readUnaryComparingOver (nested limit depth (readUnaryComparingAt limit room))
      (nested limit depth fun depth => readChoice (readUnaryComparingAt limit room depth))
      (readTerm limit depth)

/-- As `readUnary`, with the two readings of an opening parenthesis tried the other way round. -/
def readUnaryComparing (limit : Option Nat) (depth : Nat) : Reader (Condition String) := fun ts =>
  readUnaryComparingAt limit (ts.length + 1) depth ts

/-! ## Parentheses have one reading -/

theorem readGrouped_eq_ok {group : Reader (Condition String)} {ts rest : List Located}
    {c : Condition String} :
    readGrouped group ts = .ok (c, rest) ↔ grouped? group ts = some (c, rest) := by
  constructor
  · intro h
    obtain ⟨⟨c, after⟩, hc, h⟩ := bind_ok_iff.mp h
    obtain ⟨last, hl, h⟩ := bind_ok_iff.mp h
    cases h
    obtain ⟨p, rfl⟩ := exists_of_expectMark hl
    simp only [grouped?, hc]
  · intro h
    obtain ⟨p, hc⟩ := grouped?_eq_some h
    simp only [readGrouped, hc, ok_bind, expectMark, if_true]
    rfl

theorem KeptBy.grouped {group group' : Reader (Condition String)} (h : KeptBy group group')
    {ts rest : List Located} {c : Condition String} (hc : grouped? group ts = some (c, rest)) :
    grouped? group' ts = some (c, rest) := by
  obtain ⟨p, hc⟩ := grouped?_eq_some hc
  simp only [grouped?, h _ _ _ hc]

section Either

variable {negated negated' group group' : Reader (Condition String)} {term : Reader (Term String)}

/-- Where a group stands, no comparison begins with its parenthesis. -/
def Exclusive (group : Reader (Condition String)) (term : Reader (Term String)) : Prop :=
  ∀ p behind found, grouped? group behind = some found →
    ∃ r, readComparison term (⟨.mark .lparen, p⟩ :: behind) = .error r

/-- What the group is tried first for is read alike where it is tried last. -/
theorem keptBy_comparingOver (he : Exclusive group term) (hn : KeptBy negated negated')
    (hg : KeptBy group group') :
    KeptBy (readUnaryOver negated group term) (readUnaryComparingOver negated' group' term) := by
  intro ts c rest h
  unfold readUnaryOver at h
  split at h
  · obtain ⟨⟨inner, after⟩, hi, h⟩ := bind_ok_iff.mp h
    exact bind_ok_iff.mpr ⟨_, hn _ _ _ hi, h⟩
  · next p behind =>
    split at h
    · next found hfound =>
      cases h
      obtain ⟨r, hr⟩ := he p behind _ hfound
      simp only [readUnaryComparingOver, hr]
      exact readGrouped_eq_ok.mpr (hg.grouped hfound)
    · simp only [readUnaryComparingOver, h]
  · next hnot hparen =>
    rw [readUnaryComparingOver]
    · exact h
    · exact hnot
    · exact hparen

theorem comparingOver_keptBy (he : Exclusive group term) (hn : KeptBy negated' negated)
    (hg : KeptBy group' group) :
    KeptBy (readUnaryComparingOver negated' group' term) (readUnaryOver negated group term) := by
  intro ts c rest h
  unfold readUnaryComparingOver at h
  split at h
  · obtain ⟨⟨inner, after⟩, hi, h⟩ := bind_ok_iff.mp h
    exact bind_ok_iff.mpr ⟨_, hn _ _ _ hi, h⟩
  · next p behind =>
    simp only [readUnaryOver]
    split at h
    · next found hcompared =>
      cases h
      cases hfound : grouped? group behind with
      | none => exact hcompared
      | some found =>
        obtain ⟨r, hr⟩ := he p behind found hfound
        rw [hr] at hcompared
        cases hcompared
    · rw [hg.grouped (readGrouped_eq_ok.mp h)]
  · next hnot hparen =>
    rw [readUnaryOver]
    · exact h
    · exact hnot
    · exact hparen

end Either

section Readings

variable (limit : Option Nat) (depth : Nat)

theorem exclusive_groupAt (room : Nat) :
    Exclusive (nested limit depth fun depth => readChoice (readUnaryAt limit room depth))
      (readTerm limit depth) := by
  intro p behind found hfound
  obtain ⟨r, hr, -⟩ := readComparison_of_grouped (p := p) hfound
  exact ⟨r, hr⟩

/-- By induction on the room, of which every level takes one. -/
theorem comparingAt_alike (room : Nat) :
    KeptBy (readUnaryAt limit room depth) (readUnaryComparingAt limit room depth) ∧
      KeptBy (readUnaryComparingAt limit room depth) (readUnaryAt limit room depth) := by
  induction room generalizing depth with
  | zero => exact ⟨.refl _, .refl _⟩
  | succ room ih =>
    obtain ⟨hforth, hback⟩ := ih (depth + 1)
    have he := exclusive_groupAt limit depth room
    exact ⟨keptBy_comparingOver he hforth.nested (KeptBy.nested hforth.readChoice),
      comparingOver_keptBy he hback.nested (KeptBy.nested hback.readChoice)⟩

/-- Behind an opening parenthesis there is not both a condition with its closing one and, from the
parenthesis on, a comparison. So it makes no difference which of the two is tried first. -/
theorem paren_readings_exclusive :
    (∀ p behind, ¬ ((grouped? (nested limit depth (readCondition limit)) behind).isSome ∧
        ∃ found, readComparison (readTerm limit depth) (⟨.mark .lparen, p⟩ :: behind) =
          .ok found)) ∧
      ∀ ts found, readUnaryComparing limit depth ts = .ok found ↔
        readUnary limit depth ts = .ok found := by
  refine ⟨fun p behind ⟨hgroup, found, hcompared⟩ => ?_, fun ts found => ?_⟩
  · obtain ⟨c, hc⟩ := Option.isSome_iff_exists.mp hgroup
    rw [← groupAt_eq limit (Nat.lt_succ_self behind.length)] at hc
    obtain ⟨r, hr⟩ := exclusive_groupAt limit depth _ p behind c hc
    rw [hr] at hcompared
    cases hcompared
  · obtain ⟨hforth, hback⟩ := comparingAt_alike limit depth (ts.length + 1)
    exact ⟨hback ts found.1 found.2, hforth ts found.1 found.2⟩

end Readings

end Policy.Source
