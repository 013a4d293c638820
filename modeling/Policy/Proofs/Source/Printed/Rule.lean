import Policy.Proofs.Source.Printed.Condition

namespace Policy.Source

theorem reads_decision {d : Decision} (hd : d ≠ .undecided) (more : List Token) :
    Reads readDecision (d.token :: more) more d := by
  intro located hl
  obtain ⟨p, rest, rfl, hr⟩ := exists_of_map_cons hl
  cases d with
  | permit => exact ⟨rest, hr, rfl⟩
  | deny => exact ⟨rest, hr, rfl⟩
  | undecided => exact absurd rfl hd

/-- A rule starts with a word, which goes on with no condition in front of it. -/
theorem next_rule {r : Rule String} (hw : r.WellFormed) (more : List Token) :
    ∃ k, next (r.tokens ++ more) = .keyword k ∧ (Token.keyword k).joins = false := by
  cases r with
  | when condition decision =>
    cases decision with
    | permit => exact ⟨_, rfl, rfl⟩
    | deny => exact ⟨_, rfl, rfl⟩
    | undecided => exact absurd rfl hw.2
  | _ => exact ⟨_, rfl, rfl⟩

theorem joins_next_rule {r : Rule String} (hw : r.WellFormed) (more : List Token) :
    (next (r.tokens ++ more)).joins = false := by
  obtain ⟨k, hnext, hjoins⟩ := next_rule hw more
  rw [hnext]
  exact hjoins

theorem joins_next_members (rs : List (Rule String)) (more : List Token) :
    (next (Rule.memberTokens rs ++ .mark .rbrace :: more)).joins = false := by
  cases rs with
  | nil => rfl
  | cons r rs => rfl

theorem length_memberTokens (rs : List (Rule String)) :
    rs.length ≤ (Rule.memberTokens rs).length := by
  induction rs with
  | nil => exact Nat.le_refl _
  | cons r rs ih =>
    rw [Rule.memberTokens, List.length_cons, List.length_cons, List.length_append]
    omega

section Rule

variable {limit : Option Nat} {most depth : Nat} {rule : Nat → Reader (Rule String)}
  {ts mid more : List Token}

theorem reads_when {c : Condition String} {d : Decision} (hd : d ≠ .undecided)
    (hc : Reads (readCondition limit depth) ts more c) :
    Reads (readRuleOver limit rule depth) (d.token :: .keyword .when :: ts) more (.when c d) := by
  intro located hl
  obtain ⟨front, hfront, hx⟩ := reads_decision hd _ located hl
  obtain ⟨p, middle, rfl, hmiddle⟩ := exists_of_map_cons hfront
  obtain ⟨rest, hr, hy⟩ := hc middle hmiddle
  have hwhen : readWhen limit depth located = .ok (.when c d, rest) := by
    simp only [readWhen, hx, ok_bind, expectKeyword, if_true, hy]
    rfl
  refine ⟨rest, hr, ?_⟩
  obtain ⟨p, located, rfl, -⟩ := exists_of_map_cons hl
  cases d with
  | permit => exact hwhen
  | deny => exact hwhen
  | undecided => exact absurd rfl hd

/-- A branch with both legs. -/
theorem reads_legs {c : Condition String} {onTrue onFalse : Rule String}
    (hc : Reads (readCondition limit depth) ts mid c) {other : List Token}
    (htrue : Reads (rule depth) mid (.keyword .otherwise :: other) onTrue)
    (hfalse : Reads (rule depth) other more onFalse) :
    Reads (readBranch limit rule depth) ts more (.branch c onTrue onFalse) := by
  intro located hl
  obtain ⟨front, hfront, hx⟩ := hc located hl
  obtain ⟨middle, hmiddle, hy⟩ := htrue front hfront
  obtain ⟨p, back, rfl, hback⟩ := exists_of_map_cons hmiddle
  obtain ⟨rest, hr, hz⟩ := hfalse back hback
  refine ⟨rest, hr, ?_⟩
  simp only [readBranch, hx, ok_bind, hy, hz]
  rfl

theorem reads_branch {c : Condition String} {onTrue onFalse : Rule String}
    (hc : Reads (readCondition (some most) (depth + 1)) ts mid c)
    {other : List Token}
    (htrue : Reads (rule (depth + 1)) mid (.keyword .otherwise :: other) onTrue)
    (hfalse : Reads (rule (depth + 1)) other more onFalse) (hdepth : depth < most) :
    Reads (readRuleOver (some most) rule depth) (.keyword .cond :: ts) more
      (.branch c onTrue onFalse) :=
  ((reads_legs hc htrue hfalse).nested hdepth).behind fun _ _ => rfl

theorem reads_block {members : List (Rule String)}
    (h : Reads (nested limit depth fun depth => readMembers (rule depth)) ts
      (.mark .rbrace :: more) members) :
    Reads (readBlock limit depth rule) (.mark .lbrace :: ts) more members := by
  intro located hl
  obtain ⟨front, hfront, hopen⟩ := expectMark_of_map "'\x7b'" hl
  obtain ⟨middle, hmiddle, hx⟩ := h front hfront
  obtain ⟨rest, hr, hclose⟩ := expectMark_of_map "',' or '\x7d'" hmiddle
  refine ⟨rest, hr, ?_⟩
  simp only [readBlock, hopen, ok_bind, hx, hclose]
  rfl

theorem reads_group_rule {d : Decision} (hd : d ≠ .undecided) {members : List (Rule String)}
    (group : Decision → List (Rule String) → Rule String)
    (h : Reads (readBlock limit depth rule) ts more members) :
    Reads (readGroup limit depth rule group) (d.token :: ts) more (group d members) := by
  intro located hl
  obtain ⟨front, hfront, hx⟩ := reads_decision hd _ located hl
  obtain ⟨rest, hr, hy⟩ := h front hfront
  refine ⟨rest, hr, ?_⟩
  simp only [readGroup, hx, ok_bind, hy]
  rfl

end Rule

theorem reads_membersFrom {rule : Reader (Rule String)} {rs : List (Rule String)}
    {more : List Token}
    (h : ∀ r ∈ rs, ∀ more, (next more).joins = false → Reads rule (r.tokens ++ more) more r)
    {room : Nat} (hroom : rs.length ≤ room) :
    Reads (readMembersFrom rule room) (Rule.memberTokens rs ++ .mark .rbrace :: more)
      (.mark .rbrace :: more) rs := by
  induction rs generalizing room with
  | nil =>
    intro located hl
    obtain ⟨p, rest, rfl, hr⟩ := exists_of_map_cons hl
    refine ⟨_, hl, ?_⟩
    cases room with
    | zero => rfl
    | succ room => rfl
  | cons r rs ih =>
    obtain ⟨hr, hrs⟩ := List.forall_mem_cons.mp h
    obtain ⟨room, rfl⟩ : ∃ k, room = k + 1 := ⟨room - 1, by simp at hroom; omega⟩
    rw [Rule.memberTokens, List.cons_append, List.append_assoc]
    intro located hl
    obtain ⟨p, front, rfl, hfront⟩ := exists_of_map_cons hl
    obtain ⟨middle, hmiddle, hx⟩ := hr _ (joins_next_members rs more) front hfront
    obtain ⟨rest, hrest, hy⟩ := ih hrs (Nat.le_of_succ_le_succ hroom) middle hmiddle
    refine ⟨rest, hrest, ?_⟩
    simp only [readMembersFrom, hx, ok_bind, hy]
    rfl

theorem reads_members {rule : Reader (Rule String)} {rs : List (Rule String)} {more : List Token}
    (h : ∀ r ∈ rs, ∀ more, (next more).joins = false → Reads rule (r.tokens ++ more) more r)
    (hne : rs ≠ []) :
    Reads (readMembers rule) ((Rule.memberTokens rs).tail ++ .mark .rbrace :: more)
      (.mark .rbrace :: more) rs := by
  obtain ⟨r, rs, rfl⟩ := List.exists_cons_of_ne_nil hne
  obtain ⟨hr, hrs⟩ := List.forall_mem_cons.mp h
  rw [Rule.memberTokens, List.tail_cons, List.append_assoc]
  intro located hl
  obtain ⟨middle, hmiddle, hx⟩ := hr _ (joins_next_members rs more) located hl
  have hroom : rs.length ≤ middle.length := by
    have hlength := length_memberTokens rs
    have heq := congrArg List.length hmiddle
    rw [List.length_map, List.length_append] at heq
    omega
  obtain ⟨rest, hrest, hy⟩ := reads_membersFrom hrs hroom middle hmiddle
  refine ⟨rest, hrest, ?_⟩
  simp only [readMembers, hx, ok_bind, hy]
  rfl

theorem reads_braces {most depth : Nat} {rule : Nat → Reader (Rule String)}
    {rs : List (Rule String)} {more : List Token} (hdepth : depth < most)
    (h : ∀ r ∈ rs, ∀ more, (next more).joins = false →
      Reads (rule (depth + 1)) (r.tokens ++ more) more r) (hne : rs ≠ []) :
    Reads (readBlock (some most) depth rule) (braces (Rule.memberTokens rs).tail ++ more) more
      rs := by
  rw [braces_append]
  apply reads_block
  exact Reads.nested hdepth (reads_members h hne)

mutual

/-- A printed rule, by induction on it. The second leg of a branch is always printed, so that no
`else` behind an inner branch is taken for its own. -/
theorem reads_rule (r : Rule String) (hw : r.WellFormed) {most depth room : Nat}
    (hdepth : depth + r.nesting ≤ most) (hroom : r.nesting < room) (more : List Token)
    (hmore : (next more).joins = false) :
    Reads (readRuleAt (some most) room depth) (r.tokens ++ more) more r := by
  obtain ⟨room, rfl⟩ : ∃ k, room = k + 1 := ⟨room - 1, by omega⟩
  cases r with
  | always decision => exact ((reads_decision hw more).map Rule.always).behind fun _ _ => rfl
  | never =>
    intro located hl
    obtain ⟨p, rest, rfl, hr⟩ := exists_of_map_cons hl
    exact ⟨rest, hr, rfl⟩
  | when condition decision => exact reads_when hw.2 (readCondition_tokens hw.1 hdepth hmore)
  | branch condition onTrue onFalse =>
    simp only [Rule.nesting] at hdepth hroom
    simp only [Rule.tokens, List.cons_append, List.append_assoc]
    have hcondition : Reads (readCondition (some most) (depth + 1))
        (condition.tokens ++ (onTrue.tokens ++ .keyword .otherwise :: (onFalse.tokens ++ more))) _
        condition := readCondition_tokens hw.1 (by omega) (joins_next_rule hw.2.1 _)
    have htrue : Reads (readRuleAt (some most) room (depth + 1))
        (onTrue.tokens ++ .keyword .otherwise :: (onFalse.tokens ++ more)) _ onTrue :=
      reads_rule onTrue hw.2.1 (by omega) (by omega) _ rfl
    have hfalse : Reads (readRuleAt (some most) room (depth + 1)) (onFalse.tokens ++ more) more
        onFalse := reads_rule onFalse hw.2.2 (by omega) (by omega) more hmore
    exact reads_branch hcondition htrue hfalse (by omega)
  | majority decision members =>
    simp only [Rule.nesting] at hdepth hroom
    have hblock : Reads (readBlock (some most) depth (readRuleAt (some most) room))
        (braces (Rule.memberTokens members).tail ++ more) more members :=
      reads_braces (by omega) (reads_each members hw.2.2 (by omega) (by omega)) hw.2.1
    exact (reads_group_rule hw.1 .majority hblock).behind fun _ _ => rfl
  | all decision members =>
    simp only [Rule.nesting] at hdepth hroom
    have hblock : Reads (readBlock (some most) depth (readRuleAt (some most) room))
        (braces (Rule.memberTokens members).tail ++ more) more members :=
      reads_braces (by omega) (reads_each members hw.2.2 (by omega) (by omega)) hw.2.1
    exact (reads_group_rule hw.1 .all hblock).behind fun _ _ => rfl
  | any decision members =>
    simp only [Rule.nesting] at hdepth hroom
    have hblock : Reads (readBlock (some most) depth (readRuleAt (some most) room))
        (braces (Rule.memberTokens members).tail ++ more) more members :=
      reads_braces (by omega) (reads_each members hw.2.2 (by omega) (by omega)) hw.2.1
    exact (reads_group_rule hw.1 .any hblock).behind fun _ _ => rfl
  | oneOf members =>
    simp only [Rule.nesting] at hdepth hroom
    have hblock : Reads (readBlock (some most) depth (readRuleAt (some most) room))
        (braces (Rule.memberTokens members).tail ++ more) more members :=
      reads_braces (by omega) (reads_each members hw.2 (by omega) (by omega)) hw.1
    exact (hblock.map Rule.oneOf).behind fun _ _ => rfl

theorem reads_each (rs : List (Rule String)) (hw : Rule.MembersWellFormed rs)
    {most depth room : Nat} (hdepth : depth + Rule.memberNesting rs ≤ most)
    (hroom : Rule.memberNesting rs < room) :
    ∀ r ∈ rs, ∀ more, (next more).joins = false →
      Reads (readRuleAt (some most) room depth) (r.tokens ++ more) more r := by
  cases rs with
  | nil => exact fun r hr => by cases hr
  | cons r rs =>
    simp only [Rule.memberNesting] at hdepth hroom
    refine List.forall_mem_cons.mpr ⟨?_, ?_⟩
    · exact reads_rule r hw.1 (by omega) (by omega)
    · exact reads_each rs hw.2 (by omega) (by omega)

end

mutual

theorem rule_nesting_le_length (r : Rule String) : r.nesting ≤ r.tokens.length := by
  cases r with
  | always decision => exact Nat.zero_le _
  | never => exact Nat.zero_le _
  | when condition decision =>
    have hc := condition_nesting_le_length condition
    simp only [Rule.nesting, Rule.tokens, List.length_cons]
    omega
  | branch condition onTrue onFalse =>
    have hc := condition_nesting_le_length condition
    have ht := rule_nesting_le_length onTrue
    have hf := rule_nesting_le_length onFalse
    simp only [Rule.nesting, Rule.tokens, List.length_cons, List.length_append]
    omega
  | majority decision members | all decision members | any decision members | oneOf members =>
    have hm := members_nesting_le_length members
    simp only [Rule.nesting, Rule.tokens, braces, List.length_cons, List.length_append,
      List.length_tail]
    omega

theorem members_nesting_le_length (rs : List (Rule String)) :
    Rule.memberNesting rs ≤ (Rule.memberTokens rs).length := by
  cases rs with
  | nil => exact Nat.zero_le _
  | cons r rs =>
    have hr := rule_nesting_le_length r
    have hrs := members_nesting_le_length rs
    simp only [Rule.memberNesting, Rule.memberTokens, List.length_cons, List.length_append]
    omega

end

theorem readRule_tokens {r : Rule String} (hw : r.WellFormed) {most : Nat}
    (hdepth : r.nesting ≤ most) {more : List Token} (hmore : (next more).joins = false) :
    Reads (readRule (some most) 0) (r.tokens ++ more) more r := by
  refine reads_of_room (fun room => readRuleAt (some most) room 0) (fun room hroom => ?_)
  have hlength := rule_nesting_le_length r
  rw [List.length_append] at hroom
  exact reads_rule r hw (by omega) (by omega) more hmore

end Policy.Source
