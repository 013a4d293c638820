import Policy.Proofs.Source.Local.Condition
import Policy.Proofs.Source.Printed.Rule

namespace Policy.Source

theorem exists_of_expectKeyword {k : Keyword} {located rest : List Located}
    (h : expectKeyword k located = .ok rest) : ∃ p, located = ⟨.keyword k, p⟩ :: rest := by
  dsimp only [expectKeyword] at h
  split at h
  · next k' p behind =>
    split at h
    · next hk =>
      cases h
      exact ⟨p, by rw [hk]⟩
    · cases h
  · cases h

theorem decision_ne_eof {d : Decision} (hd : d ≠ .undecided) : d.token ≠ .eof := by
  cases d with
  | permit => exact Token.noConfusion
  | deny => exact Token.noConfusion
  | undecided => exact absurd rfl hd

theorem exists_of_readDecision {located rest : List Located} {d : Decision}
    (h : readDecision located = .ok (d, rest)) :
    d ≠ .undecided ∧ ∃ p, located = ⟨d.token, p⟩ :: rest := by
  unfold readDecision at h
  split at h
  · cases h
    exact ⟨Decision.noConfusion, _, rfl⟩
  · cases h
    exact ⟨Decision.noConfusion, _, rfl⟩
  · cases h

/-! ## Rules with a condition -/

section Rule

variable {limit : Option Nat} {depth : Nat} {rule : Nat → Reader (Rule String)}
  {again : Nat → Nat → Reader (Rule String)}

/-- What the reader takes starts with a word that goes on with nothing, as rules do. -/
def Worded (reader : Reader (Rule String)) : Prop :=
  ∀ located x rest, reader located = .ok (x, rest) →
    ∃ k, peek located = .keyword k ∧ (Token.keyword k).closes = true

theorem worded_readRuleOver : Worded (readRuleOver limit rule depth) := by
  intro located x rest h
  unfold readRuleOver at h
  split at h
  · exact ⟨_, rfl, rfl⟩
  · exact ⟨_, rfl, rfl⟩
  · exact ⟨_, rfl, rfl⟩
  · exact ⟨_, rfl, rfl⟩
  · exact ⟨_, rfl, rfl⟩
  · exact ⟨_, rfl, rfl⟩
  · exact ⟨_, rfl, rfl⟩
  · exact ⟨_, rfl, rfl⟩
  · exact ⟨_, rfl, rfl⟩
  · cases h

theorem worded_readRuleAt (limit : Option Nat) (room depth : Nat) :
    Worded (readRuleAt limit room depth) := by
  cases room with
  | zero =>
    intro located x rest h
    cases h
  | succ room => exact worded_readRuleOver

/-- The word is the first token of the front, whatever stands behind it. -/
theorem Worded.next {reader : Reader (Rule String)} (hw : Worded reader)
    {located rest : List Located} {x : Rule String} (h : reader located = .ok (x, rest))
    {front : List Token} (hfront : located.map (·.token) = front ++ rest.map (·.token))
    (hne : front ≠ []) :
    ∃ k, peek located = .keyword k ∧ (Token.keyword k).closes = true ∧
      Source.next front = .keyword k := by
  obtain ⟨k, hk, hcloses⟩ := hw located x rest h
  refine ⟨k, hk, hcloses, ?_⟩
  rw [peek_eq_next hfront] at hk
  obtain ⟨t, front, rfl⟩ := List.exists_cons_of_ne_nil hne
  exact hk

/-- A decision and its condition. -/
theorem exists_front_when (again : Nat → Nat → Reader (Rule String)) {located rest : List Located}
    {r : Rule String} (hx : readWhen limit depth located = .ok (r, rest)) :
    ∃ front, located.map (·.token) = front ++ rest.map (·.token) ∧
      Front (fun room => readRuleOver limit (again room) depth) front (peek rest) r := by
  obtain ⟨⟨decision, middle⟩, hdecision, hx⟩ := bind_ok_iff.mp hx
  obtain ⟨behind, hwhen, hx⟩ := bind_ok_iff.mp hx
  obtain ⟨⟨condition, last⟩, hcondition, hx⟩ := bind_ok_iff.mp hx
  cases hx
  obtain ⟨p, rfl⟩ := exists_of_expectKeyword hwhen
  obtain ⟨hd, q, rfl⟩ := exists_of_readDecision hdecision
  obtain ⟨front, hfront, hf⟩ := local_readCondition _ _ _ _ _ hcondition
  refine ⟨decision.token :: .keyword .when :: front, ?_, List.cons_ne_nil _ _, ?_, ?_⟩
  · rw [List.map_cons, List.map_cons, hfront]
    rfl
  · simp [(decision_ne_eof hd).symm, hf.solid]
  · intro room more _ hmore
    have hbehind : Follows front _ more := hmore.last [decision.token, .keyword .when]
    exact reads_when hd (hf.reads _ more (Nat.le_refl _) hbehind)

/-- A branch without a second leg, which no other leg follows. -/
theorem reads_leg {c : Condition String} {onTrue : Rule String} {ts mid more : List Token}
    (hc : Reads (readCondition limit depth) ts mid c) (htrue : Reads (rule depth) mid more onTrue)
    (hmore : next more ≠ .keyword .otherwise) :
    Reads (readBranch limit rule depth) ts more (.branch c onTrue .never) := by
  intro located hl
  obtain ⟨front, hfront, hx⟩ := hc located hl
  obtain ⟨rest, hr, hy⟩ := htrue front hfront
  refine ⟨rest, hr, ?_⟩
  have hpeek := peek_eq_next hr
  simp only [readBranch, hx, ok_bind, hy]
  split
  · exact absurd hpeek.symm hmore
  · rfl

theorem local_readBranch (h : Local (rule depth) fun room => again room depth)
    (hw : Worded (rule depth)) :
    Local (readBranch limit rule depth) fun room => readBranch limit (again room) depth := by
  intro located x rest hx
  obtain ⟨⟨condition, middle⟩, hcondition, hx⟩ := bind_ok_iff.mp hx
  obtain ⟨⟨onTrue, last⟩, htrue, hx⟩ := bind_ok_iff.mp hx
  obtain ⟨front, hfront, hf⟩ := local_readCondition _ _ _ _ _ hcondition
  obtain ⟨leg, hleg, hl⟩ := h _ _ _ htrue
  dsimp only at hx hl hleg htrue hfront hf
  have hsame (more : List Token) : Follows front (peek middle) (leg ++ more) := by
    obtain ⟨k, hk, -, hnext⟩ := hw.next htrue hleg hl.nonempty
    rw [hk]
    exact Follows.same (next_append hnext more) rfl
  split at hx
  · next p behind =>
    obtain ⟨⟨onFalse, final⟩, hfalse, hx⟩ := bind_ok_iff.mp hx
    cases hx
    obtain ⟨other, hother, ho⟩ := h _ _ _ hfalse
    have hl : Front _ leg (.keyword .otherwise) onTrue := hl
    refine ⟨front ++ (leg ++ .keyword .otherwise :: other), ?_, ?_, ?_, ?_⟩
    · rw [hfront, hleg, List.map_cons, hother]
      simp
    · exact List.append_ne_nil_of_left_ne_nil hf.nonempty _
    · simp [hf.solid, hl.solid, ho.solid]
    · intro room more hroom hmore
      simp only [List.length_append, List.length_cons] at hroom
      have helse : Follows leg (.keyword .otherwise) (.keyword .otherwise :: (other ++ more)) :=
        Follows.same rfl rfl
      have hlegs : Follows (leg ++ .keyword .otherwise :: other) _ more := hmore.last front
      have hother : Follows (.keyword .otherwise :: other) _ more := hlegs.last leg
      simp only [List.append_assoc, List.cons_append]
      exact reads_legs (hf.reads _ _ (Nat.le_refl _) (hsame _)) (hl.reads room _ (by omega) helse)
        (ho.reads room more (by omega) (hother.last [_]))
  · next hne =>
    cases hx
    refine ⟨front ++ leg, by rw [hfront, hleg, List.append_assoc], ?_, ?_, ?_⟩
    · exact List.append_ne_nil_of_left_ne_nil hf.nonempty _
    · simp [hf.solid, hl.solid]
    · intro room more hroom hmore
      rw [List.length_append] at hroom
      rw [List.append_assoc]
      have hpeek : peek rest ≠ .keyword .otherwise := peek_ne Token.noConfusion hne
      exact reads_leg (hf.reads _ _ (Nat.le_refl _) (hsame _))
        (hl.reads room more (by omega) (hmore.last front)) (hmore.ne hpeek rfl)

/-! ## Groups of rules -/

theorem reads_membersFrom_nil {reader : Reader (Rule String)} {steps : Nat} {more : List Token}
    (h : next more ≠ .mark .comma) : Reads (readMembersFrom reader steps) more more [] := by
  intro located hl
  refine ⟨located, hl, ?_⟩
  have hpeek := peek_eq_next hl
  unfold readMembersFrom
  split
  · rfl
  · split
    · exact absurd hpeek.symm h
    · rfl

theorem tail_membersFrom_nil (again : Nat → Reader (Rule String)) :
    Tail (fun room steps => readMembersFrom (again room) steps) (.mark .rbrace) [] (.mark .rbrace)
      [] := by
  refine Tail.nil fun room steps more hmore => reads_membersFrom_nil fun hnext => ?_
  rcases hmore.token with hbrace | ⟨hend, -⟩
  · rw [hnext] at hbrace
    cases hbrace
  · cases hend

/-- One more member. The word that it starts with is no parameter for a call in front of the
comma. -/
theorem tail_membersFrom_cons {again : Nat → Reader (Rule String)} {front tail : List Token}
    {t v : Token} {member : Rule String} {members : List (Rule String)}
    (hmember : Front again front t member)
    {k : Keyword} (hword : next front = .keyword k)
    (htail : Tail (fun room steps => readMembersFrom (again room) steps) t tail v members) :
    Tail (fun room steps => readMembersFrom (again room) steps) (.mark .comma)
      (.mark .comma :: (front ++ tail)) v (member :: members) := by
  have hfollows (before more : List Token) :
      Follows before (.mark .comma) (.mark .comma :: (front ++ more)) := by
    refine ⟨.inl rfl, fun _ => rfl, fun _ => startsParameter_of_separates ?_⟩
    rw [List.tail_cons, next_append hword]
    rfl
  refine Tail.cons Token.noConfusion hfollows hmember htail ?_
  intro room steps more hfirst hothers located hl
  obtain ⟨p, behind, rfl, hbehind⟩ := exists_of_map_cons hl
  obtain ⟨middle, hm, hx⟩ := hfirst behind hbehind
  obtain ⟨rest, hr, hy⟩ := hothers middle hm
  refine ⟨rest, hr, ?_⟩
  simp only [readMembersFrom, hx, ok_bind, hy]
  rfl

/-- The members behind the first one, in front of the brace that closes. By induction on the room,
of which each comma takes one. -/
theorem exists_tail_membersFrom {reader : Reader (Rule String)} {again : Nat → Reader (Rule String)}
    (h : Local reader again) (hw : Worded reader) {room : Nat} {located rest : List Located}
    {members : List (Rule String)} (hrest : peek rest = .mark .rbrace)
    (hx : readMembersFrom reader room located = .ok (members, rest)) :
    ∃ tail, located.map (·.token) = tail ++ rest.map (·.token) ∧
      Tail (fun room steps => readMembersFrom (again room) steps) (peek located) tail (peek rest)
        members := by
  induction room generalizing located members with
  | zero =>
    cases hx
    rw [hrest]
    exact ⟨[], rfl, tail_membersFrom_nil again⟩
  | succ room ih =>
    simp only [readMembersFrom] at hx
    split at hx
    · next p behind =>
      obtain ⟨⟨member, middle⟩, hmember, hx⟩ := bind_ok_iff.mp hx
      obtain ⟨⟨others, last⟩, hothers, hx⟩ := bind_ok_iff.mp hx
      cases hx
      obtain ⟨front, hfront, hf⟩ := h _ _ _ hmember
      obtain ⟨tail, htail, ht⟩ := ih hothers
      obtain ⟨k, -, -, hword⟩ := hw.next hmember hfront hf.nonempty
      refine ⟨.mark .comma :: (front ++ tail), ?_, tail_membersFrom_cons hf hword ht⟩
      rw [List.map_cons, hfront, htail, List.cons_append, List.append_assoc]
    · cases hx
      rw [hrest]
      exact ⟨[], rfl, tail_membersFrom_nil again⟩

theorem exists_front_members {reader : Reader (Rule String)} {again : Nat → Reader (Rule String)}
    (h : Local reader again) (hw : Worded reader) {located rest : List Located}
    {members : List (Rule String)} (hrest : peek rest = .mark .rbrace)
    (hx : readMembers reader located = .ok (members, rest)) :
    ∃ front, located.map (·.token) = front ++ rest.map (·.token) ∧
      Front (fun room => readMembers (again room)) front (peek rest) members := by
  obtain ⟨⟨member, middle⟩, hmember, hx⟩ := bind_ok_iff.mp hx
  obtain ⟨⟨others, last⟩, hothers, hx⟩ := bind_ok_iff.mp hx
  cases hx
  obtain ⟨front, hfront, hf⟩ := h _ _ _ hmember
  obtain ⟨tail, htail, ht⟩ := exists_tail_membersFrom h hw hrest hothers
  refine ⟨front ++ tail, by rw [hfront, htail, List.append_assoc], ?_⟩
  refine Tail.front hf ht fun room located middle rest hx hy => ?_
  simp only [readMembers, hx, ok_bind, hy]
  rfl

/-- Members between braces. -/
theorem local_readBlock (h : Local (rule (depth + 1)) fun room => again room (depth + 1))
    (hw : Worded (rule (depth + 1))) :
    Local (readBlock limit depth rule) fun room => readBlock limit depth (again room) := by
  intro located x rest hx
  obtain ⟨opened, hopened, hx⟩ := bind_ok_iff.mp hx
  obtain ⟨⟨members, middle⟩, hmembers, hx⟩ := bind_ok_iff.mp hx
  obtain ⟨closed, hclosed, hx⟩ := bind_ok_iff.mp hx
  cases hx
  obtain ⟨p, rfl⟩ := exists_of_expectMark hopened
  obtain ⟨q, rfl⟩ := exists_of_expectMark hclosed
  have hopen {α : Type} (inner : Nat → Reader α) := nested_of_ok hmembers inner
  rw [hopen] at hmembers
  obtain ⟨front, hfront, hf⟩ := exists_front_members h hw rfl hmembers
  have hf : Front _ front (.mark .rbrace) x := hf.roomier
  have hbraces : Front (fun room => readBlock limit depth (again room))
      (.mark .lbrace :: (front ++ [.mark .rbrace])) (peek rest) x := by
    refine hf.between Token.noConfusion rfl fun room more hread => ?_
    apply reads_block
    rw [hopen]
    exact hread
  refine ⟨_, ?_, hbraces⟩
  rw [List.map_cons, hfront, List.cons_append, List.append_assoc]
  rfl

theorem local_readGroup (group : Decision → List (Rule String) → Rule String)
    (h : Local (rule (depth + 1)) fun room => again room (depth + 1))
    (hw : Worded (rule (depth + 1))) :
    Local (readGroup limit depth rule group)
      fun room => readGroup limit depth (again room) group := by
  intro located x rest hx
  obtain ⟨⟨decision, middle⟩, hdecision, hx⟩ := bind_ok_iff.mp hx
  obtain ⟨⟨members, last⟩, hmembers, hx⟩ := bind_ok_iff.mp hx
  cases hx
  obtain ⟨hd, p, rfl⟩ := exists_of_readDecision hdecision
  obtain ⟨front, hfront, hf⟩ := local_readBlock h hw _ _ _ hmembers
  refine ⟨_, by rw [List.map_cons, hfront, List.cons_append], ?_⟩
  exact hf.roomier.behind (decision_ne_eof hd) fun room more hread => reads_group_rule hd group hread

/-! ## Rules -/

theorem local_readRuleOver (h : Local (rule (depth + 1)) fun room => again room (depth + 1))
    (hw : Worded (rule (depth + 1))) :
    Local (readRuleOver limit rule depth)
      fun room => readRuleOver limit (again (room - 1)) depth := by
  intro located x rest hx
  unfold readRuleOver at hx
  split at hx
  · obtain ⟨⟨decision, middle⟩, hdecision, hx⟩ := bind_ok_iff.mp hx
    cases hx
    obtain ⟨hd, p, rfl⟩ := exists_of_readDecision hdecision
    refine ⟨[.keyword .always, decision.token], rfl, List.cons_ne_nil _ _, ?_, ?_⟩
    · simp [(decision_ne_eof hd).symm]
    · intro room more _ _
      exact ((reads_decision hd more).map Rule.always).behind fun _ _ => rfl
  · cases hx
    exact ⟨_, rfl, front_token Token.noConfusion fun _ _ _ => rfl⟩
  · exact exists_front_when (fun room => again (room - 1)) hx
  · exact exists_front_when (fun room => again (room - 1)) hx
  · obtain ⟨front, hfront, hf⟩ := Local.nested (local_readBranch h hw) _ _ _ hx
    refine ⟨_, by rw [List.map_cons, hfront, List.cons_append], ?_⟩
    exact hf.behind Token.noConfusion fun room more hread => hread.behind fun _ _ => rfl
  · obtain ⟨front, hfront, hf⟩ := local_readGroup .majority h hw _ _ _ hx
    refine ⟨_, by rw [List.map_cons, hfront, List.cons_append], ?_⟩
    exact hf.behind Token.noConfusion fun room more hread => hread.behind fun _ _ => rfl
  · obtain ⟨front, hfront, hf⟩ := local_readGroup .all h hw _ _ _ hx
    refine ⟨_, by rw [List.map_cons, hfront, List.cons_append], ?_⟩
    exact hf.behind Token.noConfusion fun room more hread => hread.behind fun _ _ => rfl
  · obtain ⟨front, hfront, hf⟩ := local_readGroup .any h hw _ _ _ hx
    refine ⟨_, by rw [List.map_cons, hfront, List.cons_append], ?_⟩
    exact hf.behind Token.noConfusion fun room more hread => hread.behind fun _ _ => rfl
  · obtain ⟨⟨members, middle⟩, hmembers, hx⟩ := bind_ok_iff.mp hx
    cases hx
    obtain ⟨front, hfront, hf⟩ := local_readBlock h hw _ _ _ hmembers
    refine ⟨_, by rw [List.map_cons, hfront, List.cons_append], ?_⟩
    exact hf.behind Token.noConfusion fun room more hread =>
      (hread.map Rule.oneOf).behind fun _ _ => rfl
  · cases hx

/-- By induction on the room, of which each level takes one. -/
theorem local_readRuleAt (limit : Option Nat) (room depth : Nat) :
    Local (readRuleAt limit room depth) fun room => readRuleAt limit room depth := by
  induction room generalizing depth with
  | zero => exact Local.expected _ _
  | succ room ih =>
    intro located x rest hx
    have hover : Local (readRuleOver limit (readRuleAt limit room) depth)
        fun room => readRuleOver limit (readRuleAt limit (room - 1)) depth :=
      local_readRuleOver (ih (depth + 1)) (worded_readRuleAt limit room (depth + 1))
    obtain ⟨front, hfront, hf⟩ := hover _ _ _ hx
    exact ⟨front, hfront, hf.congr fun _ => rfl⟩

theorem local_readRule (limit : Option Nat) (depth : Nat) :
    Local (readRule limit depth) fun _ => readRule limit depth :=
  Local.of_length fun room => local_readRuleAt limit room depth

end Rule

end Policy.Source
