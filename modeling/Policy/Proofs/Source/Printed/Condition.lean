import Policy.Proofs.Source.Printed.Term

namespace Policy.Source

/-! ## Parentheses at the front of a comparison

A parenthesis is tried as a group first. Where it belongs to a term, no group ends behind it. -/

/-- A term in parentheses at the front of a term is a term of its own. -/
theorem exists_of_readTerm_lparen {limit : Option Nat} {depth : Nat} {p : Position}
    {located rest : List Located} {t : Term String}
    (h : readTerm limit depth (⟨.mark .lparen, p⟩ :: located) = .ok (t, rest)) :
    (∀ {α : Type} (inner : Nat → Reader α), nested limit depth inner = inner (depth + 1)) ∧
      ∃ inner q behind,
        readTerm limit (depth + 1) located = .ok (inner, ⟨.mark .rparen, q⟩ :: behind) := by
  obtain ⟨⟨subject, afterSubject⟩, hsum, -⟩ := bind_ok_iff.mp h
  obtain ⟨⟨addend, afterAddend⟩, hproduct, -⟩ := bind_ok_iff.mp hsum
  obtain ⟨⟨factor, afterFactor⟩, hatom, -⟩ := bind_ok_iff.mp hproduct
  obtain ⟨⟨inner, afterInner⟩, hinner, hatom⟩ := bind_ok_iff.mp hatom
  obtain ⟨afterParen, hparen, -⟩ := bind_ok_iff.mp hatom
  obtain ⟨q, rfl⟩ := exists_of_expectMark hparen
  have hopen {α : Type} (inner : Nat → Reader α) :=
    nested_of_ok hinner inner
  rw [hopen] at hinner
  exact ⟨hopen, inner, q, afterParen, hinner⟩

/-- No comparison sign follows where a parenthesis closes. -/
theorem readComparison_rparen {term : Reader (Term String)} {located rest : List Located}
    {t : Term String} {p : Position} (h : term located = .ok (t, ⟨.mark .rparen, p⟩ :: rest)) :
    ∃ refusal, readComparison term located = .error refusal := by
  simp only [readComparison, h, ok_bind]
  exact ⟨_, rfl⟩

theorem grouped_of_error {unary : Reader (Condition String)} {located : List Located}
    {refusal : Refusal} (h : unary located = .error refusal) :
    grouped? (readChoice unary) located = none := by
  simp only [grouped?, readChoice, chain, h, error_bind]

/-- Where a term is read, it is the first one of a comparison, whether it starts with a parenthesis
or not. By induction on the room: what stands in the parentheses that a term begins with is a term
as well, and so no group. -/
theorem readUnaryAt_of_readTerm {limit : Option Nat} {room depth : Nat}
    {located rest : List Located} {t : Term String}
    (h : readTerm limit depth located = .ok (t, rest)) :
    readUnaryAt limit (room + 1) depth located =
      readComparison (readTerm limit depth) located := by
  induction room using Nat.strongRecOn generalizing depth located rest t with
  | ind room ih =>
    rw [readUnaryAt]
    unfold readUnaryOver
    split
    · cases h
    · next p located =>
      obtain ⟨hopen, inner, q, behind, hinner⟩ := exists_of_readTerm_lparen h
      have hrefused :
          ∃ refusal, readUnaryAt limit room (depth + 1) located = .error refusal := by
        cases room with
        | zero => exact ⟨_, rfl⟩
        | succ room =>
          rw [ih room (Nat.lt_succ_self room) hinner]
          exact readComparison_rparen hinner
      obtain ⟨refusal, hrefused⟩ := hrefused
      rw [hopen fun depth => readChoice (readUnaryAt limit room depth), grouped_of_error hrefused]
    · rfl

section Condition

variable {negated group unary : Reader (Condition String)} {term : Reader (Term String)}
  {ts mid more : List Token} {c : Condition String}

theorem reads_group (h : Reads group (ts ++ .mark .rparen :: more) (.mark .rparen :: more) c) :
    Reads (readUnaryOver negated group term) (parens ts ++ more) more c := by
  intro located hl
  rw [parens_append] at hl
  obtain ⟨p, located, rfl, hinner⟩ := exists_of_map_cons hl
  obtain ⟨rest, hr, hx⟩ := h located hinner
  obtain ⟨q, rest, rfl, hrest⟩ := exists_of_map_cons hr
  exact ⟨rest, hrest, by simp only [readUnaryOver, grouped?, hx]⟩

theorem reads_not (h : Reads negated ts more c) :
    Reads (readUnaryOver negated group term) (.keyword .not :: ts) more (.not c) :=
  (h.map Condition.not).behind fun _ _ => rfl

theorem reads_comparison {sign : Token} {lhs rhs : Term String}
    {compare : Term String → Term String → Condition String}
    (hlhs : Reads term ts (sign :: mid) lhs) (hsign : comparison? sign = some compare)
    (hrhs : Reads term mid more rhs) :
    Reads (readComparison term) ts more (compare lhs rhs) := by
  intro located hl
  obtain ⟨middle, hm, hx⟩ := hlhs located hl
  obtain ⟨p, middle, rfl, hmid⟩ := exists_of_map_cons hm
  obtain ⟨rest, hr, hy⟩ := hrhs middle hmid
  refine ⟨rest, hr, ?_⟩
  simp only [readComparison, hx, ok_bind, peek, hsign, List.tail_cons, hy]
  rfl

/-- A condition without connectives outside of parentheses. -/
theorem reads_choice (h : Reads unary ts more c) (hmore : (next more).joins = false) :
    Reads (readChoice unary) ts more c :=
  (h.chain (conjunction_of_joins hmore)).chain (disjunction_of_joins hmore)

end Condition

theorem reads_unary_of_comparison {limit : Option Nat} {depth : Nat} (room : Nat)
    {ts more : List Token} {c : Condition String}
    (h : Reads (readComparison (readTerm limit depth)) ts more c) :
    Reads (readUnaryAt limit (room + 1) depth) ts more c := by
  intro located hl
  obtain ⟨rest, hr, hx⟩ := h located hl
  obtain ⟨⟨left, middle⟩, hleft, -⟩ := bind_ok_iff.mp hx
  exact ⟨rest, hr, (readUnaryAt_of_readTerm hleft).trans hx⟩

/-- A comparison of terms in parentheses, the first one of which could start a group. -/
theorem reads_unary_comparison {lhs rhs : Term String} (hlhs : lhs.WellFormed)
    (hrhs : rhs.WellFormed) {sign : Token}
    {compare : Term String → Term String → Condition String}
    (hsign : comparison? sign = some compare) (hjoins : sign.joins = false) {most depth : Nat}
    (hdepth : depth + (max lhs.nesting rhs.nesting + 1) ≤ most) (room : Nat) {more : List Token}
    (hmore : (next more).joins = false) :
    Reads (readUnaryAt (some most) (room + 1) depth)
      (parens lhs.tokens ++ sign :: (parens rhs.tokens ++ more)) more (compare lhs rhs) := by
  have hleft : Reads (readTerm (some most) depth)
      (parens lhs.tokens ++ sign :: (parens rhs.tokens ++ more)) (sign :: _) lhs :=
    readTerm_parens hlhs (by omega) hjoins
  have hright : Reads (readTerm (some most) depth) (parens rhs.tokens ++ more) more rhs :=
    readTerm_parens hrhs (by omega) hmore
  exact reads_unary_of_comparison room (reads_comparison hleft hsign hright)

/-- A condition in parentheses. -/
theorem reads_unary_group {most depth room : Nat} (hdepth : depth < most) {ts more : List Token}
    {c : Condition String}
    (h : Reads (readChoice (readUnaryAt (some most) room (depth + 1))) (ts ++ .mark .rparen :: more)
      (.mark .rparen :: more) c) :
    Reads (readUnaryAt (some most) (room + 1) depth) (parens ts ++ more) more c := by
  have hnested : Reads (nested (some most) depth fun depth =>
      readChoice (readUnaryAt (some most) room depth)) _ _ c := Reads.nested hdepth h
  exact reads_group hnested

theorem condition_nesting_le_length (c : Condition String) : c.nesting ≤ c.tokens.length := by
  induction c with
  | not inner ih | and lhs rhs ihl ihr | or lhs rhs ihl ihr =>
    simp only [Condition.nesting, Condition.tokens, parens, List.length_cons, List.length_append,
      List.length_nil]
    omega
  | equal lhs rhs | greater lhs rhs =>
    have hl := term_nesting_le_length lhs
    have hr := term_nesting_le_length rhs
    simp only [Condition.nesting, Condition.tokens, parens, List.length_cons, List.length_append,
      List.length_nil]
    omega

/-- A reader of negations, groups and comparisons that opens at least so many levels. -/
def Roomy (most depth levels : Nat) (unary : Reader (Condition String)) : Prop :=
  ∀ n ts more c, n ≤ levels → n ≤ ts.length →
    (∀ room, n < room → Reads (readUnaryAt (some most) room depth) ts more c) →
    Reads unary ts more c

theorem roomy_unaryAt {most depth levels room : Nat} (h : levels < room) :
    Roomy most depth levels (readUnaryAt (some most) room depth) :=
  fun _ _ _ _ hn _ hreads => hreads room (by omega)

theorem roomy_unary {most depth levels : Nat} :
    Roomy most depth levels (readUnary (some most) depth) := by
  intro n ts more c _ hlength hreads
  exact reads_of_room (fun room => readUnaryAt (some most) room depth)
    fun room hroom => hreads room (by omega)

theorem Roomy.reads_parens {most depth levels : Nat} {unary : Reader (Condition String)}
    (hunary : Roomy most depth levels unary) (hdepth : depth < most) {c : Condition String}
    (hlevels : c.nesting + 1 ≤ levels) {more : List Token}
    (h : ∀ room, c.nesting < room → Reads (readChoice (readUnaryAt (some most) room (depth + 1)))
      (c.tokens ++ .mark .rparen :: more) (.mark .rparen :: more) c) :
    Reads unary (parens c.tokens ++ more) more c := by
  have hlength := condition_nesting_le_length c
  refine hunary (c.nesting + 1) _ more c hlevels ?_ (fun room hroom => ?_)
  · rw [parens_append, List.length_cons, List.length_append]
    omega
  · obtain ⟨room, rfl⟩ : ∃ k, room = k + 1 := ⟨room - 1, by omega⟩
    exact reads_unary_group hdepth (h room (by omega))

/-- A printed condition, by induction on it. -/
theorem reads_condition {c : Condition String} (hw : c.WellFormed) {most depth : Nat}
    (hdepth : depth + c.nesting ≤ most) {more : List Token} (hmore : (next more).joins = false)
    {unary : Reader (Condition String)} (hunary : Roomy most depth c.nesting unary) :
    Reads (readChoice unary) (c.tokens ++ more) more c := by
  induction c generalizing depth more unary with
  | not inner ih =>
    have hlength := condition_nesting_le_length (.not inner)
    simp only [Condition.nesting] at hdepth hunary hlength
    refine reads_choice (hunary _ _ _ _ (Nat.le_refl _) ?_ (fun room hroom => ?_)) hmore
    · rw [List.length_append]
      omega
    · obtain ⟨room, rfl⟩ : ∃ k, room = k + 2 := ⟨room - 2, by omega⟩
      have hinner : Reads (readChoice (readUnaryAt (some most) room (depth + 2)))
          (inner.tokens ++ .mark .rparen :: more) _ inner :=
        ih hw (by omega) rfl (roomy_unaryAt (by omega))
      have hgroup := reads_unary_group (by omega) hinner
      exact reads_not (hgroup.nested (by omega))
  | and lhs rhs ihl ihr =>
    simp only [Condition.nesting] at hdepth hunary
    have hleft : Reads unary (parens lhs.tokens ++ .keyword .and :: (parens rhs.tokens ++ more)) _
        lhs :=
      hunary.reads_parens (by omega) (by omega) fun room hroom =>
        ihl hw.1 (by omega) rfl (roomy_unaryAt hroom)
    have hright : Reads unary (parens rhs.tokens ++ more) more rhs :=
      hunary.reads_parens (by omega) (by omega) fun room hroom =>
        ihr hw.2 (by omega) rfl (roomy_unaryAt hroom)
    rw [Condition.tokens, List.append_assoc]
    exact (hleft.chain_two rfl hright (conjunction_of_joins hmore)).chain
      (disjunction_of_joins hmore)
  | or lhs rhs ihl ihr =>
    simp only [Condition.nesting] at hdepth hunary
    have hleft : Reads unary (parens lhs.tokens ++ .keyword .or :: (parens rhs.tokens ++ more)) _
        lhs :=
      hunary.reads_parens (by omega) (by omega) fun room hroom =>
        ihl hw.1 (by omega) rfl (roomy_unaryAt hroom)
    have hright : Reads unary (parens rhs.tokens ++ more) more rhs :=
      hunary.reads_parens (by omega) (by omega) fun room hroom =>
        ihr hw.2 (by omega) rfl (roomy_unaryAt hroom)
    rw [Condition.tokens, List.append_assoc]
    exact (hleft.chain rfl).chain_two rfl (hright.chain (conjunction_of_joins hmore))
      (disjunction_of_joins hmore)
  | equal lhs rhs | greater lhs rhs =>
    have hl := term_nesting_le_length lhs
    have hr := term_nesting_le_length rhs
    simp only [Condition.nesting] at hdepth hunary
    rw [Condition.tokens, List.append_assoc]
    refine reads_choice (hunary _ _ _ _ (Nat.le_refl _) ?_ (fun room hroom => ?_)) hmore
    · simp only [parens, List.length_append, List.length_cons]
      omega
    · obtain ⟨room, rfl⟩ : ∃ k, room = k + 1 := ⟨room - 1, by omega⟩
      exact reads_unary_comparison hw.1 hw.2 rfl rfl hdepth room hmore

theorem readCondition_tokens {c : Condition String} (hw : c.WellFormed) {most depth : Nat}
    (hdepth : depth + c.nesting ≤ most) {more : List Token} (hmore : (next more).joins = false) :
    Reads (readCondition (some most) depth) (c.tokens ++ more) more c :=
  reads_condition hw hdepth hmore roomy_unary

end Policy.Source
