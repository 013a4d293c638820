import Policy.Proofs.Source.Cursor.Condition

namespace Policy.Source

namespace Walk

variable (tokens : List Located) (limit : Option Nat)

def decision : Walk Decision := do
  match ← ahead tokens 0 with
  | .keyword .permit => do
    advance tokens
    pure .permit
  | .keyword .deny => do
    advance tokens
    pure .deny
  | _ => expected tokens "'permit' or 'deny'"

/-- Takes the rules behind each comma that follows. -/
def membersFrom (rule : Walk (Rule String)) : (fuel : Nat) → Walk (List (Rule String))
  | 0 => stuck .endless
  | fuel + 1 => do
    if (← ahead tokens 0) = .mark .comma then do
      advance tokens
      let member ← rule
      let more ← membersFrom rule fuel
      pure (member :: more)
    else pure []

def members (fuel : Nat) (rule : Walk (Rule String)) : Walk (List (Rule String)) := do
  let member ← rule
  let more ← membersFrom tokens rule fuel
  pure (member :: more)

/-- One or more rules in braces. -/
def block (fuel : Nat) (rule : Walk (Rule String)) : Walk (List (Rule String)) := do
  expect tokens (.mark .lbrace) "'\x7b'"
  let rules ← nested tokens limit (members tokens fuel rule)
  expect tokens (.mark .rbrace) "',' or '\x7d'"
  pure rules

/-- The condition and the legs of a branch. Without a second leg the branch does not decide. -/
def branch (fuel : Nat) (rule : Walk (Rule String)) : Walk (Rule String) := do
  let c ← condition tokens limit fuel
  let onTrue ← rule
  if (← ahead tokens 0) = .keyword .otherwise then do
    advance tokens
    let onFalse ← rule
    pure (.branch c onTrue onFalse)
  else pure (.branch c onTrue .never)

def whenRule (fuel : Nat) : Walk (Rule String) := do
  let d ← decision tokens
  expect tokens (.keyword .when) ("'" ++ Keyword.when.text ++ "'")
  let c ← condition tokens limit fuel
  pure (.when c d)

def group (fuel : Nat) (rule : Walk (Rule String))
    (make : Decision → List (Rule String) → Rule String) : Walk (Rule String) := do
  let d ← decision tokens
  let rules ← block tokens limit fuel rule
  pure (make d rules)

/-- A rule whose inner rules are taken by `rule`. -/
def ruleOver (fuel : Nat) (rule : Walk (Rule String)) : Walk (Rule String) := do
  match ← ahead tokens 0 with
  | .keyword .always => do
    advance tokens
    let d ← decision tokens
    pure (.always d)
  | .keyword .never => do
    advance tokens
    pure .never
  | .keyword .permit | .keyword .deny => whenRule tokens limit fuel
  | .keyword .cond => do
    advance tokens
    nested tokens limit (branch tokens limit fuel rule)
  | .keyword .majority => do
    advance tokens
    group tokens limit fuel rule .majority
  | .keyword .all => do
    advance tokens
    group tokens limit fuel rule .all
  | .keyword .any => do
    advance tokens
    group tokens limit fuel rule .any
  | .keyword .exclusive => do
    advance tokens
    let rules ← block tokens limit fuel rule
    pure (.oneOf rules)
  | _ => expected tokens "rule"

def rule : (fuel : Nat) → Walk (Rule String)
  | 0 => stuck .endless
  | fuel + 1 => ruleOver tokens limit (fuel + 1) (rule fuel)

/-! ## Rule sets -/

/-- Whether an attribute is defined here. -/
def atDefinition : Walk Bool := do
  let name ← ahead tokens 0
  let sign ← ahead tokens 1
  pure (name.isName && sign = .mark .eq)

def definition (fuel : Nat) : Walk (Attribute String) := do
  let name ← takeName tokens
  expect tokens (.mark .eq) "'='"
  let value ← term tokens limit fuel
  pure ⟨name, value⟩

/-- Takes attributes as long as one is defined here. -/
def definitions : (fuel : Nat) → Walk (List (Attribute String))
  | 0 => stuck .endless
  | fuel + 1 => do
    if ← atDefinition tokens then do
      let a ← definition tokens limit (fuel + 1)
      let more ← definitions fuel
      pure (a :: more)
    else pure []

/-- Takes rules up to the end of the text. -/
def rules : (fuel : Nat) → Walk (List (Rule String))
  | 0 => stuck .endless
  | fuel + 1 => do
    if (← ahead tokens 0) = .eof then pure []
    else do
      let r ← rule tokens limit (fuel + 1)
      let more ← rules fuel
      pure (r :: more)

def ruleSet (fuel : Nat) : Walk (RuleSet String) := do
  let attributes ← definitions tokens limit fuel
  let members ← rules tokens limit fuel
  if members.isEmpty then expected tokens "at least one rule" else pure ⟨attributes, members⟩

/-- Reads an attribute where levels are open already. -/
def readAttributeAt (limit : Option Nat) (depth : Nat) : Reader (Attribute String) := fun ts => do
  let (name, rest) ← readName ts
  let rest ← expectMark .eq "'='" rest
  let (value, rest) ← readTerm limit depth rest
  pure (⟨name, value⟩, rest)

variable {tokens limit} {low depth fuel pos : Nat}

section

variable (hended : Ended tokens)
include hended

theorem tracks_decision : Tracks tokens low depth (decision tokens) readDecision := by
  intro pos _ hpos
  obtain ⟨t, p, ht⟩ := exists_drop_eq_cons hpos
  unfold decision
  rw [run_peek_bind ht, ht]
  cases t with
  | keyword k =>
    cases k with
    | permit => exact arrives_advance hended ht (by simp)
    | deny => exact arrives_advance hended ht (by simp)
    | _ => exact .refused _ pos (run_bind_of_ok (run_look_zero ht)) rfl hpos
  | _ => exact .refused _ pos (run_bind_of_ok (run_look_zero ht)) rfl hpos

section Inner

variable {rule : Walk (Rule String)} {reader : Reader (Rule String)}
  {readers : Nat → Reader (Rule String)}

/-- By induction on the fuel, of which each comma takes one. -/
theorem arrives_membersFrom {room : Nat} (hr : Tracks tokens low depth rule reader)
    (hlow : low ≤ pos) (hpos : pos < tokens.length) (hfuel : tokens.length ≤ fuel + pos)
    (hroom : tokens.length ≤ room + pos) :
    Arrives tokens depth pos ((membersFrom tokens rule fuel).run.run ⟨pos, depth⟩)
      (readMembersFrom reader room (tokens.drop pos)) := by
  induction fuel generalizing room pos with
  | zero => omega
  | succ fuel ih =>
    obtain ⟨room, rfl⟩ : ∃ k, room = k + 1 := ⟨room - 1, by omega⟩
    obtain ⟨t, p, ht⟩ := exists_drop_eq_cons hpos
    simp only [membersFrom, readMembersFrom]
    rw [run_peek_bind ht, ht]
    split
    · next hcomma =>
      subst hcomma
      have hlt := hended.succ_lt ht (by simp)
      refine .advance hlt ((hr (pos + 1) (by omega) hlt).bind fun member after hafter hin => ?_)
      exact (ih (by omega) hin (by omega) (by omega)).map (by omega)
    · next hother =>
      split
      · next heq =>
        cases heq
        exact absurd rfl hother
      · rw [← ht]
        exact .pure [] (Nat.le_refl _) hpos

theorem tracks_members (hr : Tracks tokens low depth rule reader)
    (hfuel : tokens.length ≤ fuel + low) :
    Tracks tokens low depth (members tokens fuel rule) (readMembers reader) := by
  intro pos hlow hpos
  refine (hr pos hlow hpos).bind fun member after hafter hin => ?_
  have hroom := length_le_drop tokens after
  exact (arrives_membersFrom hended hr (by omega) hin (by omega) hroom).map hafter

theorem tracks_block (hr : Tracks tokens (low + 1) (depth + 1) rule (readers (depth + 1)))
    (hfuel : tokens.length ≤ fuel + low) :
    Tracks tokens low depth (block tokens limit fuel rule) (readBlock limit depth readers) := by
  intro pos hlow hpos
  have hmembers : Tracks tokens (low + 1) depth (nested tokens limit (members tokens fuel rule))
      (Source.nested limit depth fun depth => readMembers (readers depth)) :=
    .nested (tracks_members hended hr (by omega))
  refine arrives_mark hended hpos fun hlt => ?_
  refine (hmembers (pos + 1) (by omega) hlt).bind fun rules after hafter hin => ?_
  exact arrives_mark hended hin fun hlast => .pure rules (by omega) hlast

theorem tracks_branch (hr : Tracks tokens (low + 1) depth rule (readers depth))
    (hfuel : tokens.length ≤ fuel + low) :
    Tracks tokens low depth (branch tokens limit fuel rule) (readBranch limit readers depth) := by
  intro pos hlow hpos
  refine (tracks_condition hended hfuel pos hlow hpos).bind fun c mid hmid hin => ?_
  refine (hr mid (by omega) hin).bind fun onTrue after hafter hin' => ?_
  obtain ⟨t, p, ht⟩ := exists_drop_eq_cons hin'
  dsimp only
  rw [run_peek_bind ht, ht]
  split
  · next hotherwise =>
    subst hotherwise
    have hlt := hended.succ_lt ht (by simp)
    exact .advance hlt ((hr (after + 1) (by omega) hlt).map (by omega))
  · next hother =>
    split
    · next heq =>
      cases heq
      exact absurd rfl hother
    · rw [← ht]
      exact .pure _ (by omega) hin'

theorem tracks_whenRule (hfuel : tokens.length ≤ fuel + low) :
    Tracks tokens low depth (whenRule tokens limit fuel) (readWhen limit depth) := by
  intro pos hlow hpos
  refine (tracks_decision hended pos hlow hpos).bind fun d mid hmid hin => ?_
  refine arrives_keyword hended hin fun hlt => ?_
  exact (tracks_condition hended hfuel (mid + 1) (by omega) hlt).map (by omega)

theorem tracks_group (hr : Tracks tokens (low + 1) (depth + 1) rule (readers (depth + 1)))
    (hfuel : tokens.length ≤ fuel + low) (make : Decision → List (Rule String) → Rule String) :
    Tracks tokens low depth (group tokens limit fuel rule make)
      (readGroup limit depth readers make) := by
  intro pos hlow hpos
  refine (tracks_decision hended pos hlow hpos).bind fun d mid hmid hin => ?_
  exact (tracks_block hended hr hfuel mid (by omega) hin).map (by omega)

theorem tracks_ruleOver (hr : Tracks tokens (low + 1) (depth + 1) rule (readers (depth + 1)))
    (hfuel : tokens.length ≤ fuel + low) :
    Tracks tokens low depth (ruleOver tokens limit fuel rule)
      (readRuleOver limit readers depth) := by
  intro pos hlow hpos
  obtain ⟨t, p, ht⟩ := exists_drop_eq_cons hpos
  have hwhen : Arrives tokens depth (pos + 1) ((whenRule tokens limit fuel).run.run ⟨pos, depth⟩)
      (readWhen limit depth (tokens.drop pos)) := tracks_whenRule hended hfuel pos hlow hpos
  have hgroup (hlt : pos + 1 < tokens.length)
      (make : Decision → List (Rule String) → Rule String) :
      Arrives tokens depth (pos + 1)
        ((do advance tokens; group tokens limit fuel rule make).run.run ⟨pos, depth⟩)
        (readGroup limit depth readers make (tokens.drop (pos + 1))) :=
    .advance hlt ((tracks_group hended hr hfuel make (pos + 1) (by omega) hlt).mono (by omega))
  unfold ruleOver
  rw [run_peek_bind ht]
  rw [ht] at hwhen ⊢
  cases t with
  | keyword k =>
    have hlt := hended.succ_lt ht (by simp)
    cases k with
    | always =>
      exact .advance hlt ((tracks_decision hended (pos + 1) (Nat.zero_le _) hlt).map (by omega))
    | never => exact arrives_advance hended ht (by simp)
    | permit => exact hwhen
    | deny => exact hwhen
    | cond =>
      have hbranch : Tracks tokens low depth (nested tokens limit (branch tokens limit fuel rule))
        (Source.nested limit depth (readBranch limit readers)) :=
          .nested (tracks_branch hended hr hfuel)
      exact .advance hlt ((hbranch (pos + 1) (by omega) hlt).mono (by omega))
    | majority => exact hgroup hlt .majority
    | all => exact hgroup hlt .all
    | any => exact hgroup hlt .any
    | exclusive =>
      exact .advance hlt ((tracks_block hended hr hfuel (pos + 1) (by omega) hlt).map (by omega))
    | _ => exact .refused _ pos (run_bind_of_ok (run_look_zero ht)) rfl hpos
  | _ => exact .refused _ pos (run_bind_of_ok (run_look_zero ht)) rfl hpos

end Inner

/-- By induction on the fuel, of which each level takes one. -/
theorem tracks_ruleAt {room : Nat} (hfuel : tokens.length ≤ fuel + low)
    (hroom : tokens.length ≤ room + low) :
    Tracks tokens low depth (rule tokens limit fuel) (readRuleAt limit room depth) := by
  induction fuel generalizing room low depth with
  | zero => exact fun pos hlow hpos => absurd hpos (by omega)
  | succ fuel ih =>
    cases room with
    | zero => exact fun pos hlow hpos => absurd hpos (by omega)
    | succ room => exact tracks_ruleOver hended (ih (by omega) (by omega)) hfuel

theorem tracks_rule (hfuel : tokens.length ≤ fuel + low) :
    Tracks tokens low depth (rule tokens limit fuel) (readRule limit depth) :=
  .of_room fun _ _ hlow hroom => tracks_ruleAt hended (by omega) hroom

theorem tracks_definition (hfuel : tokens.length ≤ fuel + low) :
    Tracks tokens low depth (definition tokens limit fuel) (readAttributeAt limit depth) := by
  intro pos hlow hpos
  refine (tracks_takeName hended low pos hlow hpos).bind fun name mid hmid hin => ?_
  refine arrives_mark hended hin fun hlt => ?_
  exact (tracks_term hended hfuel (mid + 1) (by omega) hlt).map (by omega)

theorem run_atDefinition :
    (atDefinition tokens).run.run ⟨pos, depth⟩ =
      .ok (.ok (startsAttribute (tokens.drop pos)), ⟨pos, depth⟩) := by
  have hstarts (ts : List Located) : startsAttribute ts =
      ((Source.peek ts).isName && Source.peek (ts.drop 1) = .mark .eq) := by
    rw [Bool.eq_iff_iff]
    simp only [Bool.and_eq_true, decide_eq_true_eq]
    constructor
    · intro h
      unfold startsAttribute at h
      split at h
      · exact ⟨rfl, rfl⟩
      · cases h
    · rintro ⟨hname, hsign⟩
      match ts with
      | [] => cases hname
      | [_] => cases hsign
      | ⟨t, _⟩ :: ⟨sign, _⟩ :: rest =>
        obtain ⟨name, rfl⟩ := exists_of_isName hname
        obtain rfl : sign = .mark .eq := hsign
        rfl
  unfold atDefinition
  rw [run_ahead_bind hended, run_ahead_bind hended, hstarts, List.drop_drop]
  rfl

/-- By induction on the fuel, of which each attribute takes one. -/
theorem arrives_definitions {room : Nat} (hpos : pos < tokens.length)
    (hfuel : tokens.length ≤ fuel + pos) (hroom : tokens.length ≤ room + pos) :
    Arrives tokens 0 pos ((definitions tokens limit fuel).run.run ⟨pos, 0⟩)
      (readAttributes limit room (tokens.drop pos)) := by
  induction fuel generalizing room pos with
  | zero => omega
  | succ fuel ih =>
    obtain ⟨room, rfl⟩ : ∃ k, room = k + 1 := ⟨room - 1, by omega⟩
    simp only [definitions, readAttributes]
    rw [run_bind_of_ok (run_atDefinition hended)]
    split
    · refine .bind (tracks_definition hended hfuel pos (Nat.le_refl _) hpos)
        fun a after hafter hin => ?_
      exact (ih hin (by omega) (by omega)).map (by omega)
    · exact .pure [] (Nat.le_refl _) hpos

/-- By induction on the fuel, of which each rule takes one. -/
theorem arrives_rules {room : Nat} (hpos : pos < tokens.length)
    (hfuel : tokens.length ≤ fuel + pos) (hroom : tokens.length ≤ room + pos) :
    Arrives tokens 0 pos ((rules tokens limit fuel).run.run ⟨pos, 0⟩)
      (readRules limit room (tokens.drop pos)) := by
  induction fuel generalizing room pos with
  | zero => omega
  | succ fuel ih =>
    obtain ⟨room, rfl⟩ : ∃ k, room = k + 1 := ⟨room - 1, by omega⟩
    simp only [rules, readRules]
    rw [run_ahead_bind hended, Nat.add_zero]
    split
    · exact .pure [] (Nat.le_refl _) hpos
    · refine .bind (tracks_rule hended hfuel pos (Nat.le_refl _) hpos) fun r after hafter hin => ?_
      exact (ih hin (by omega) (by omega)).map (by omega)

theorem arrives_ruleSet (hpos : pos < tokens.length) (hfuel : tokens.length ≤ fuel + pos) :
    Arrives tokens 0 pos ((ruleSet tokens limit fuel).run.run ⟨pos, 0⟩)
      (readRuleSet limit (tokens.drop pos)) := by
  refine .bind (arrives_definitions hended hpos hfuel (length_le_drop tokens pos))
    fun attributes mid hmid hin => ?_
  refine .bind (arrives_rules hended hin (by omega) (length_le_drop tokens mid))
    fun members after hafter hin' => ?_
  dsimp only
  split
  · exact arrives_expected hin' _
  · exact .pure _ (by omega) hin'

end

end Walk

end Policy.Source
