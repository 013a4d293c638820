import Policy.Proofs.Source.Joined

namespace Policy.Source

/-! ## Texts of comparisons -/

theorem tokensOf_mark (sign : Mark) : tokensOf sign.text = [.mark sign] := by
  cases sign with
  | _ => decide +kernel

theorem next_ne_int_of_mark (sign : Mark) (n : Number) : next (tokensOf sign.text) ≠ .int n := by
  rw [tokensOf_mark]
  exact Token.noConfusion

theorem scan_mark (sign : Mark) : ∃ located, scan sign.text = .ok located :=
  exists_scan_of_tokensOf (tokensOf_mark sign) (List.cons_ne_nil _ _)

/-- The text compares two terms, however it is laid out. -/
def Compares (text lhs : String) (sign : Mark) (rhs : String) : Prop :=
  tokensOf text = tokensOf lhs ++ .mark sign :: tokensOf rhs

/-- The text is that of the rule that permits under one comparison of two terms and denies under
another one of them, however it is laid out. -/
def Chooses (text lhs : String) (sign other : Mark) (rhs : String) : Prop :=
  tokensOf text = .keyword .exclusive :: .mark .lbrace ::
    .keyword .permit :: .keyword .when :: (tokensOf lhs ++ .mark sign :: (tokensOf rhs ++
      .mark .comma :: .keyword .deny :: .keyword .when ::
        (tokensOf lhs ++ .mark other :: (tokensOf rhs ++ [.mark .rbrace]))))

/-- There are such texts, and all of them are read as `x`. -/
def ReadAs {α : Type} (read : String → Except Refusal α) (writes : String → Prop) (x : α) : Prop :=
  (∃ text, writes text) ∧ ∀ text, writes text → read text = .ok x

instance (text lhs : String) (sign : Mark) (rhs : String) :
    Decidable (Compares text lhs sign rhs) :=
  inferInstanceAs (Decidable (_ = _))

instance (text lhs : String) (sign other : Mark) (rhs : String) :
    Decidable (Chooses text lhs sign other rhs) :=
  inferInstanceAs (Decidable (_ = _))

example : Compares "a>b // more" "a" .gt "b" ∧
    Chooses "exclusive \x7b permit when a > b, deny when a <= b \x7d" "a" .gt .lte "b" := by
  decide +kernel

section Compared

variable {limit : Option Nat} {depth : Nat} {front back more : List Token} {a b : Term String}
  {sign : Mark} {compare : Term String → Term String → Condition String}

theorem closes_of_comparison (hsign : comparison? (.mark sign) = some compare) :
    (Token.mark sign).closes = true := by
  cases sign with
  | plus | minus | star | slash => cases hsign
  | _ => rfl

theorem joins_of_follows (h : Follows front .eof more) : (next more).joins = false := by
  rcases h.token with hend | ⟨-, hcloses⟩
  · rw [hend]
    rfl
  · exact joins_of_closes hcloses

/-- Terms that end where their texts end, with a sign between them. -/
theorem reads_compared (ha : Front (fun _ => readTerm limit depth) front .eof a)
    (hb : Front (fun _ => readTerm limit depth) back .eof b)
    (hsign : comparison? (.mark sign) = some compare) (hmore : Follows back .eof more) :
    Reads (readCondition limit depth) (front ++ .mark sign :: (back ++ more)) more
      (compare a b) := by
  have hbetween : Follows front .eof (.mark sign :: (back ++ more)) := by
    refine ⟨.inr ⟨rfl, closes_of_comparison hsign⟩, fun _ => rfl, fun hcomma => ?_⟩
    cases hcomma
    cases hsign
  have hleft := ha.reads front.length _ (Nat.le_refl _) hbetween
  have hright := hb.reads back.length more (Nat.le_refl _) hmore
  have hunary : Reads (readUnary limit depth) (front ++ .mark sign :: (back ++ more)) more
      (compare a b) := by
    refine reads_of_room (fun room => readUnaryAt limit room depth) fun room hroom => ?_
    obtain ⟨room, rfl⟩ : ∃ k, room = k + 1 := ⟨room - 1, by omega⟩
    exact reads_unary_of_comparison room (reads_comparison hleft hsign hright)
  exact reads_choice hunary (joins_of_follows hmore)

/-- A sign and what it compares with, wherever they stand. -/
theorem lines_compared (hsign : comparison? (.mark sign) = some compare) {rhs : String}
    (hrhs : ∃ located, scan rhs = .ok located) {texts : List String} (afterTerm : Bool)
    (hrest : ∀ afterTerm, Lines afterTerm texts) : Lines afterTerm (sign.text :: rhs :: texts) := by
  refine ⟨scan_mark sign, fun _ => next_ne_int_of_mark sign, hrhs, fun h => ?_, hrest _⟩
  rw [tokensOf_mark] at h
  cases sign with
  | rparen => cases hsign
  | _ => cases h

/-- What is compared in parts of a text is compared as a whole. -/
theorem conditionOf_of_compares {text lhs rhs : String} (ha : termOf lhs = .ok a)
    (hb : termOf rhs = .ok b) (hsign : comparison? (.mark sign) = some compare)
    (h : Compares text lhs sign rhs) : conditionOf text = .ok (compare a b) := by
  obtain ⟨-, hfront⟩ := (local_readTerm nestingLimit 0).front_of_readWhole ha
  obtain ⟨-, hback⟩ := (local_readTerm nestingLimit 0).front_of_readWhole hb
  obtain ⟨located, hscan⟩ := exists_scan_of_tokensOf h (by simp)
  have hl : located.map (·.token) = tokensOf lhs ++ .mark sign :: (tokensOf rhs ++ [.eof]) := by
    rw [(map_of_scan hscan).1, h, List.append_assoc, List.cons_append]
  exact readWhole_of_reads hscan hl (reads_compared hfront hback hsign (follows_end _))

/-- Two members, behind which no other one follows. -/
theorem reads_two_members {rule : Reader (Rule String)} {ts mid : List Token} {r r' : Rule String}
    (hr : Reads rule ts (.mark .comma :: mid) r) (hr' : Reads rule mid more r')
    (hmore : next more ≠ .mark .comma) : Reads (readMembers rule) ts more [r, r'] := by
  intro located hl
  obtain ⟨middle, hm, hx⟩ := hr located hl
  obtain ⟨p, behind, rfl, hbehind⟩ := exists_of_map_cons hm
  obtain ⟨last, hlast, hy⟩ := hr' behind hbehind
  obtain ⟨rest, hrest, hz⟩ := reads_membersFrom_nil hmore last hlast
  refine ⟨rest, hrest, ?_⟩
  simp only [readMembers, hx, ok_bind, List.length_cons, readMembersFrom, hy]
  rw [hz]
  rfl

theorem follows_separator {m : Mark} {ts : List Token} (front : List Token)
    (hm : (Token.mark m).closes = true) (hts : startsParameter ts = false) :
    Follows front .eof (.mark m :: ts) :=
  ⟨.inr ⟨rfl, hm⟩, fun _ => rfl, fun _ => hts⟩

variable {other : Mark} {compare' : Term String → Term String → Condition String}

/-- The tokens of a rule that decides by two comparisons of the same terms. -/
theorem reads_choosing {most : Nat} (hmost : 0 < most)
    (ha : Front (fun _ => readTerm (some most) 1) front .eof a)
    (hb : Front (fun _ => readTerm (some most) 1) back .eof b)
    (hsign : comparison? (.mark sign) = some compare)
    (hother : comparison? (.mark other) = some compare') :
    Reads (readRule (some most) 0)
      (.keyword .exclusive :: .mark .lbrace :: .keyword .permit :: .keyword .when ::
        (front ++ .mark sign :: (back ++ .mark .comma :: .keyword .deny :: .keyword .when ::
          (front ++ .mark other :: (back ++ [.mark .rbrace, .eof])))))
      [.eof] (.oneOf [.when (compare a b) .permit, .when (compare' a b) .deny]) := by
  have hdenied : Reads (readCondition (some most) 1)
      (front ++ .mark other :: (back ++ [.mark .rbrace, .eof])) [.mark .rbrace, .eof]
      (compare' a b) :=
    reads_compared ha hb hother (follows_separator back rfl rfl)
  have hpermitted (ts : List Token) : Reads (readCondition (some most) 1)
      (front ++ .mark sign :: (back ++ .mark .comma :: .keyword .deny :: ts))
      (.mark .comma :: .keyword .deny :: ts) (compare a b) :=
    reads_compared ha hb hsign (follows_separator back rfl rfl)
  refine reads_of_room (fun room => readRuleAt (some most) room 0) fun room hroom => ?_
  obtain ⟨room, rfl⟩ : ∃ k, room = k + 2 := ⟨room - 2, by simp at hroom; omega⟩
  have hdeny : Reads (readRuleAt (some most) (room + 1) 1) _ [.mark .rbrace, .eof]
      (.when (compare' a b) .deny) := reads_when (d := .deny) Decision.noConfusion hdenied
  have hpermit (ts : List Token) : Reads (readRuleAt (some most) (room + 1) 1) _
      (.mark .comma :: .keyword .deny :: ts) (.when (compare a b) .permit) :=
    reads_when (d := .permit) Decision.noConfusion (hpermitted ts)
  have hlast : next [Token.mark .rbrace, .eof] ≠ .mark .comma := by decide
  have hmembers : Reads (readMembers (readRuleAt (some most) (room + 1) 1)) _ _ _ :=
    reads_two_members (hpermit _) hdeny hlast
  have hblock : Reads (readBlock (some most) 0 (readRuleAt (some most) (room + 1))) _ [.eof] _ :=
    reads_block (Reads.nested hmost hmembers)
  exact (hblock.map Rule.oneOf).behind fun _ _ => rfl

/-- The rule that decides by two comparisons, given that its terms are read inside of a group. -/
theorem ruleOf_of_chooses {text lhs rhs : String}
    (ha : readWhole (readTerm nestingLimit 1) lhs = .ok a)
    (hb : readWhole (readTerm nestingLimit 1) rhs = .ok b)
    (hsign : comparison? (.mark sign) = some compare)
    (hother : comparison? (.mark other) = some compare') (h : Chooses text lhs sign other rhs) :
    ruleOf text = .ok (.oneOf [.when (compare a b) .permit, .when (compare' a b) .deny]) := by
  obtain ⟨-, hfront⟩ := (local_readTerm nestingLimit 1).front_of_readWhole ha
  obtain ⟨-, hback⟩ := (local_readTerm nestingLimit 1).front_of_readWhole hb
  obtain ⟨located, hscan⟩ := exists_scan_of_tokensOf h (List.cons_ne_nil _ _)
  have hl := (map_of_scan hscan).1
  rw [h] at hl
  simp only [List.append_assoc, List.cons_append, List.nil_append] at hl
  have hmost : 0 < 128 := by decide
  exact readWhole_of_reads hscan hl (reads_choosing hmost hfront hback hsign hother)

/-- On lines of their own the parts of a comparison are apart from each other. -/
theorem compares_lines {lhs rhs : String} (hlhs : ∃ located, scan lhs = .ok located)
    (hrhs : ∃ located, scan rhs = .ok located)
    (hsign : comparison? (.mark sign) = some compare) :
    Compares ("\n".intercalate [lhs, sign.text, rhs]) lhs sign rhs := by
  have hlines : Lines false [lhs, sign.text, rhs] :=
    ⟨hlhs, fun h => absurd h Bool.false_ne_true, lines_compared hsign hrhs _ fun _ => trivial⟩
  rw [Compares, tokensOf_lines (List.cons_ne_nil _ _) hlines]
  simp [tokensOf_mark]

theorem chooses_lines {lhs rhs : String} (hlhs : ∃ located, scan lhs = .ok located)
    (hrhs : ∃ located, scan rhs = .ok located)
    (hsign : comparison? (.mark sign) = some compare)
    (hother : comparison? (.mark other) = some compare') :
    Chooses ("\n".intercalate ["exclusive \x7b permit when", lhs, sign.text, rhs, ", deny when",
      lhs, other.text, rhs, "\x7d"]) lhs sign other rhs := by
  have hopening : tokensOf "exclusive \x7b permit when" =
      [.keyword .exclusive, .mark .lbrace, .keyword .permit, .keyword .when] := by
    decide +kernel
  have hmiddle : tokensOf ", deny when" = [.mark .comma, .keyword .deny, .keyword .when] := by
    decide +kernel
  have hclosing : tokensOf "\x7d" = [.mark .rbrace] := by decide +kernel
  have hlast (afterTerm : Bool) : Lines afterTerm ["\x7d"] :=
    ⟨exists_scan_of_tokensOf hclosing (List.cons_ne_nil _ _),
      fun _ _ => hclosing ▸ Token.noConfusion, trivial⟩
  have hdenied (afterTerm : Bool) :
      Lines afterTerm [", deny when", lhs, other.text, rhs, "\x7d"] := by
    refine ⟨exists_scan_of_tokensOf hmiddle (List.cons_ne_nil _ _),
      fun _ _ => hmiddle ▸ Token.noConfusion, hlhs, fun h => ?_,
      lines_compared hother hrhs _ hlast⟩
    rw [hmiddle] at h
    cases h
  have hlines : Lines false ["exclusive \x7b permit when", lhs, sign.text, rhs, ", deny when", lhs,
      other.text, rhs, "\x7d"] := by
    refine ⟨exists_scan_of_tokensOf hopening (List.cons_ne_nil _ _),
      fun h => absurd h Bool.false_ne_true, hlhs, fun h => ?_,
      lines_compared hsign hrhs _ hdenied⟩
    rw [hopening] at h
    cases h
  rw [Chooses, tokensOf_lines (List.cons_ne_nil _ _) hlines]
  simp [tokensOf_mark, hopening, hmiddle, hclosing]

/-- What is compared in parts of a text is compared as a whole. -/
theorem readAs_compares {lhs rhs : String} (ha : termOf lhs = .ok a) (hb : termOf rhs = .ok b)
    (hsign : comparison? (.mark sign) = some compare) :
    ReadAs conditionOf (fun text => Compares text lhs sign rhs) (compare a b) := by
  obtain ⟨hlhs, -⟩ := (local_readTerm nestingLimit 0).front_of_readWhole ha
  obtain ⟨hrhs, -⟩ := (local_readTerm nestingLimit 0).front_of_readWhole hb
  exact ⟨⟨_, compares_lines hlhs hrhs hsign⟩, fun _ => conditionOf_of_compares ha hb hsign⟩

/-- Terms that are read inside of a group are chosen by in one. -/
theorem readAs_chooses {lhs rhs : String} (ha : readWhole (readTerm nestingLimit 1) lhs = .ok a)
    (hb : readWhole (readTerm nestingLimit 1) rhs = .ok b)
    (hsign : comparison? (.mark sign) = some compare)
    (hother : comparison? (.mark other) = some compare') :
    ReadAs ruleOf (fun text => Chooses text lhs sign other rhs)
      (.oneOf [.when (compare a b) .permit, .when (compare' a b) .deny]) := by
  obtain ⟨hlhs, -⟩ := (local_readTerm nestingLimit 1).front_of_readWhole ha
  obtain ⟨hrhs, -⟩ := (local_readTerm nestingLimit 1).front_of_readWhole hb
  exact ⟨⟨_, chooses_lines hlhs hrhs hsign hother⟩,
    fun _ => ruleOf_of_chooses ha hb hsign hother⟩

end Compared

end Policy.Source
