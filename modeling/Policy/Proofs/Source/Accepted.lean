import Policy.Proofs.Levels
import Policy.Proofs.Source.Tokens
import Policy.Source.Grammar
import Mathlib.Order.Basic

namespace Policy.Source

variable {α : Type}

/-! ## Room for levels -/

/-- At this depth, so many levels can open. -/
def RoomFor (limit : Option Nat) (depth levels : Nat) : Prop :=
  ∀ most ∈ limit, levels ≤ most - depth

section RoomFor

variable {limit : Option Nat} {depth m n : Nat}

@[simp] theorem roomFor_zero : RoomFor limit depth 0 := fun _ _ => Nat.zero_le _

@[simp] theorem roomFor_max :
    RoomFor limit depth (max m n) ↔ RoomFor limit depth m ∧ RoomFor limit depth n := by
  simp only [RoomFor, Nat.max_le, ← forall_and]

theorem RoomFor.mono (h : RoomFor limit depth n) (hle : m ≤ n) : RoomFor limit depth m :=
  fun most hmost => Nat.le_trans hle (h most hmost)

end RoomFor

/-- A part that has a property, and room for its levels where it stands. -/
structure Fits (P : α → Prop) (levels : α → Nat) (limit : Option Nat) (depth : Nat) (x : α) :
    Prop where
  holds : P x
  room : RoomFor limit depth (levels x)

theorem Fits.mono {P : α → Prop} {levels others : α → Nat} {limit : Option Nat} {depth : Nat}
    {x : α} (h : Fits P levels limit depth x) (hle : others x ≤ levels x) :
    Fits P others limit depth x :=
  ⟨h.holds, h.room.mono hle⟩

/-! ## Readers -/

/-- What a reader takes from proper tokens has a property, and what it leaves is proper again. -/
def Keeps (P : α → Prop) (reader : Reader α) : Prop :=
  ∀ ts x rest, Proper ts → reader ts = .ok (x, rest) → P x ∧ Proper rest

theorem keeps_expected {P : α → Prop} (wanted : String) : Keeps P (expected wanted) := by
  intro ts x rest _ h
  cases h

/-- What is read inside of a level has room for that level too. -/
theorem keeps_nested {P : α → Prop} {levels : α → Nat} {limit : Option Nat} {depth : Nat}
    {inner : Nat → Reader α} (h : Keeps (Fits P levels limit (depth + 1)) (inner (depth + 1))) :
    Keeps (Fits P (levels · + 1) limit depth) (nested limit depth inner) := by
  intro ts x rest hts hr
  unfold nested at hr
  split at hr
  · next most =>
    split at hr
    · cases hr
    · next hdepth =>
      obtain ⟨hx, hrest⟩ := h ts x rest hts hr
      refine ⟨⟨hx.holds, fun other hother => ?_⟩, hrest⟩
      cases hother
      have hlevels := hx.room most rfl
      omega
  · obtain ⟨hx, hrest⟩ := h ts x rest hts hr
    exact ⟨⟨hx.holds, fun _ hother => nomatch hother⟩, hrest⟩

section Chain

variable {P : α → Prop} {operand : Reader α} {op : Token → Option (α → α → α)}

theorem keeps_chainFrom (ho : Keeps P operand)
    (hj : ∀ t join, op t = some join → ∀ a b, P a → P b → P (join a b)) (room : Nat) (left : α)
    (hl : P left) : Keeps P (chainFrom operand op room left) := by
  induction room generalizing left with
  | zero =>
    intro ts x rest hts h
    cases h
    exact ⟨hl, hts⟩
  | succ room ih =>
    intro ts x rest hts h
    simp only [chainFrom] at h
    split at h
    · cases h
      exact ⟨hl, hts⟩
    · next join hop =>
      obtain ⟨⟨right, after⟩, hr, h⟩ := bind_ok_iff.mp h
      have hright := ho _ _ _ hts.tail hr
      exact ih (join left right) (hj _ _ hop _ _ hl hright.1) _ _ _ hright.2 h

theorem keeps_chain (ho : Keeps P operand)
    (hj : ∀ t join, op t = some join → ∀ a b, P a → P b → P (join a b)) :
    Keeps P (chain operand op) := by
  intro ts x rest hts h
  obtain ⟨⟨first, after⟩, hf, h⟩ := bind_ok_iff.mp h
  have hfirst := ho _ _ _ hts hf
  exact keeps_chainFrom ho hj _ first hfirst.1 _ _ _ hfirst.2 h

end Chain

theorem proper_of_expectMark {m : Mark} {wanted : String} {ts rest : List Located}
    (hts : Proper ts) (h : expectMark m wanted ts = .ok rest) : Proper rest := by
  unfold expectMark at h
  split at h
  · split at h
    · cases h
      exact (proper_cons.mp hts).2
    · cases h
  · cases h

theorem proper_of_expectKeyword {k : Keyword} {ts rest : List Located}
    (hts : Proper ts) (h : expectKeyword k ts = .ok rest) : Proper rest := by
  dsimp only [expectKeyword] at h
  split at h
  · split at h
    · cases h
      exact (proper_cons.mp hts).2
    · cases h
  · cases h

theorem keeps_readName : Keeps (fun name => isIdentifier name = true) readName := by
  intro ts x rest hts h
  unfold readName at h
  split at h
  · cases h
    exact proper_cons.mp hts
  · cases h
  · cases h

theorem keeps_readString : Keeps (fun _ => True) readString := by
  intro ts x rest hts h
  unfold readString at h
  split at h
  · cases h
    exact ⟨trivial, (proper_cons.mp hts).2⟩
  · cases h

/-! ## Terms -/

theorem parameter?_eq_some {ts rest : List Located} {name ref : String} {p : Position}
    (hts : Proper ts) (h : parameter? ts = some (name, p, ref, rest)) :
    isIdentifier name ∧ isIdentifier ref ∧ Proper rest := by
  unfold parameter? at h
  split at h
  · simp only [Option.some.injEq, Prod.mk.injEq] at h
    obtain ⟨rfl, rfl, rfl, rfl⟩ := h
    simp only [proper_cons] at hts
    exact ⟨hts.1, hts.2.2.1, hts.2.2.2⟩
  · cases h

/-- Names that were seen before are not among the parameters that follow. -/
theorem readParameters_wellFormed {room : Nat} {seen : List String} {ts rest : List Located}
    {params : List (String × String)} (hts : Proper ts)
    (h : readParameters room seen ts = .ok (params, rest)) :
    ParamsWellFormed params ∧ (∀ p ∈ params, p.1 ∉ seen) ∧ Proper rest := by
  induction room generalizing seen ts params with
  | zero =>
    cases h
    simp [ParamsWellFormed, hts]
  | succ room ih =>
    simp only [readParameters] at h
    split at h
    · cases h
      simp [ParamsWellFormed, hts]
    · next name p ref after hp =>
      obtain ⟨hname, href, hafter⟩ := parameter?_eq_some hts hp
      split at h
      · cases h
      · next hseen =>
        have hnew : name ∉ seen := by simpa using hseen
        split at h
        · obtain ⟨⟨more, last⟩, hmore, h⟩ := bind_ok_iff.mp h
          cases h
          obtain ⟨⟨hnodup, hids⟩, hfresh, hrest⟩ := ih hafter.tail hmore
          have hfirst : name ∉ more.map Prod.fst := by
            intro hm
            obtain ⟨q, hq, rfl⟩ := List.mem_map.mp hm
            exact hfresh q hq (by simp)
          refine ⟨⟨?_, ?_⟩, ?_, hrest⟩
          · exact List.nodup_cons.mpr ⟨hfirst, hnodup⟩
          · simpa [hname, href] using hids
          · intro q hq
            rcases List.mem_cons.mp hq with rfl | hq
            · exact hnew
            · exact fun hs => hfresh q hq (List.mem_cons_of_mem _ hs)
        · cases h
          simp [ParamsWellFormed, hname, href, hnew, hafter]

abbrev TermFits (limit : Option Nat) (depth : Nat) : Term String → Prop :=
  Fits Term.WellFormed Term.levels limit depth

section Term

variable {limit : Option Nat} {depth : Nat} {inner : Reader (Term String)}

theorem keeps_readCall (method : Method) : Keeps (TermFits limit depth) (readCall method) := by
  intro ts x rest hts h
  obtain ⟨⟨url, after⟩, hu, h⟩ := bind_ok_iff.mp h
  obtain ⟨⟨params, last⟩, hp, h⟩ := bind_ok_iff.mp h
  cases h
  obtain ⟨hparams, -, hrest⟩ := readParameters_wellFormed (keeps_readString _ _ _ hts hu).2 hp
  exact ⟨⟨hparams, roomFor_zero⟩, hrest⟩

theorem keeps_readAtom (hi : Keeps (Fits Term.WellFormed (Term.levels · + 1) limit depth) inner) :
    Keeps (TermFits limit depth) (readAtom inner) := by
  intro ts x rest hts h
  unfold readAtom at h
  split at h
  · cases h
    exact ⟨⟨trivial, roomFor_zero⟩, (proper_cons.mp hts).2⟩
  · cases h
    exact ⟨⟨trivial, roomFor_zero⟩, (proper_cons.mp hts).2⟩
  · cases h
    exact ⟨⟨(proper_cons.mp hts).1, roomFor_zero⟩, (proper_cons.mp hts).2⟩
  · obtain ⟨⟨t, after⟩, ht, h⟩ := bind_ok_iff.mp h
    obtain ⟨last, hl, h⟩ := bind_ok_iff.mp h
    cases h
    have hinner := hi _ _ _ (proper_cons.mp hts).2 ht
    exact ⟨hinner.1.mono (Nat.le_succ _), proper_of_expectMark hinner.2 hl⟩
  · obtain ⟨⟨t, after⟩, ht, h⟩ := bind_ok_iff.mp h
    cases h
    have hinner := hi _ _ _ (proper_cons.mp hts).2 ht
    exact ⟨⟨hinner.1.holds, hinner.1.room⟩, hinner.2⟩
  · obtain ⟨⟨t, after⟩, ht, h⟩ := bind_ok_iff.mp h
    cases h
    have hinner := hi _ _ _ (proper_cons.mp hts).2 ht
    exact ⟨⟨hinner.1.holds, hinner.1.room⟩, hinner.2⟩
  · obtain ⟨⟨key, after⟩, hk, h⟩ := bind_ok_iff.mp h
    cases h
    exact ⟨⟨trivial, roomFor_zero⟩, (keeps_readString _ _ _ (proper_cons.mp hts).2 hk).2⟩
  · exact keeps_readCall _ _ _ _ (proper_cons.mp hts).2 h
  · cases h
  · cases h

theorem fits_binary (op : Operator) {a b : Term String} (ha : TermFits limit depth a)
    (hb : TermFits limit depth b) : TermFits limit depth (.binary op a b) :=
  ⟨⟨ha.holds, hb.holds⟩, roomFor_max.mpr ⟨ha.room, hb.room⟩⟩

theorem factorSign?_fits (t : Token) (join : Term String → Term String → Term String)
    (h : factorSign? t = some join) (a b : Term String) (ha : TermFits limit depth a)
    (hb : TermFits limit depth b) : TermFits limit depth (join a b) := by
  unfold factorSign? at h
  split at h <;> cases h <;> exact fits_binary _ ha hb

theorem addendSign?_fits (t : Token) (join : Term String → Term String → Term String)
    (h : addendSign? t = some join) (a b : Term String) (ha : TermFits limit depth a)
    (hb : TermFits limit depth b) : TermFits limit depth (join a b) := by
  unfold addendSign? at h
  split at h <;> cases h <;> exact fits_binary _ ha hb

theorem keeps_readSum (hi : Keeps (Fits Term.WellFormed (Term.levels · + 1) limit depth) inner) :
    Keeps (TermFits limit depth) (readSum inner) :=
  keeps_chain (keeps_chain (keeps_readAtom hi) factorSign?_fits) addendSign?_fits

theorem keeps_readTermOver
    (hi : Keeps (Fits Term.WellFormed (Term.levels · + 1) limit depth) inner) :
    Keeps (TermFits limit depth) (readTermOver inner) := by
  intro ts x rest hts h
  obtain ⟨⟨subject, after⟩, hs, h⟩ := bind_ok_iff.mp h
  have hsubject := keeps_readSum hi _ _ _ hts hs
  dsimp only at h
  split at h
  · obtain ⟨⟨pattern, last⟩, hp, h⟩ := bind_ok_iff.mp h
    cases h
    have hpattern := keeps_readSum hi _ _ _ (proper_cons.mp hsubject.2).2 hp
    exact ⟨fits_binary _ hsubject.1 hpattern.1, hpattern.2⟩
  · cases h
    exact hsubject

end Term

theorem keeps_readTermAt (limit : Option Nat) (room depth : Nat) :
    Keeps (TermFits limit depth) (readTermAt limit room depth) := by
  induction room generalizing depth with
  | zero => exact keeps_expected _
  | succ room ih => exact keeps_readTermOver (keeps_nested (ih (depth + 1)))

theorem keeps_readTerm (limit : Option Nat) (depth : Nat) :
    Keeps (TermFits limit depth) (readTerm limit depth) :=
  fun ts => keeps_readTermAt limit (ts.length + 1) depth ts

/-! ## Conditions -/

abbrev ConditionFits (limit : Option Nat) (depth : Nat) : Condition String → Prop :=
  Fits Condition.WellFormed Condition.levels limit depth

section Condition

variable {limit : Option Nat} {depth : Nat}

theorem comparison?_fits {t : Token} {compare : Term String → Term String → Condition String}
    (h : comparison? t = some compare) {a b : Term String} (ha : TermFits limit depth a)
    (hb : TermFits limit depth b) : ConditionFits limit depth (compare a b) := by
  have hroom : RoomFor limit depth (compare a b).levels := by
    unfold comparison? at h
    split at h <;> cases h <;> simp [Condition.levels, ha.room, hb.room]
  refine ⟨?_, hroom⟩
  unfold comparison? at h
  split at h <;> cases h <;> simp [Condition.WellFormed, ha.holds, hb.holds]

theorem conjunction?_fits (t : Token)
    (join : Condition String → Condition String → Condition String)
    (h : conjunction? t = some join) (a b : Condition String) (ha : ConditionFits limit depth a)
    (hb : ConditionFits limit depth b) : ConditionFits limit depth (join a b) := by
  unfold conjunction? at h
  split at h <;> cases h
  exact ⟨⟨ha.holds, hb.holds⟩, roomFor_max.mpr ⟨ha.room, hb.room⟩⟩

theorem disjunction?_fits (t : Token)
    (join : Condition String → Condition String → Condition String)
    (h : disjunction? t = some join) (a b : Condition String) (ha : ConditionFits limit depth a)
    (hb : ConditionFits limit depth b) : ConditionFits limit depth (join a b) := by
  unfold disjunction? at h
  split at h <;> cases h
  exact ⟨⟨ha.holds, hb.holds⟩, roomFor_max.mpr ⟨ha.room, hb.room⟩⟩

theorem keeps_readComparison {term : Reader (Term String)}
    (ht : Keeps (TermFits limit depth) term) :
    Keeps (ConditionFits limit depth) (readComparison term) := by
  intro ts x rest hts h
  obtain ⟨⟨left, after⟩, hl, h⟩ := bind_ok_iff.mp h
  have hleft := ht _ _ _ hts hl
  dsimp only at h
  split at h
  · cases h
  · next compare hc =>
    obtain ⟨⟨right, last⟩, hr, h⟩ := bind_ok_iff.mp h
    cases h
    have hright := ht _ _ _ hleft.2.tail hr
    exact ⟨comparison?_fits hc hleft.1 hright.1, hright.2⟩

theorem keeps_readChoice {unary : Reader (Condition String)}
    (hu : Keeps (ConditionFits limit depth) unary) :
    Keeps (ConditionFits limit depth) (readChoice unary) :=
  keeps_chain (keeps_chain hu conjunction?_fits) disjunction?_fits

theorem keeps_readUnaryOver {negated group : Reader (Condition String)}
    {term : Reader (Term String)}
    (hn : Keeps (Fits Condition.WellFormed (Condition.levels · + 1) limit depth) negated)
    (hg : Keeps (Fits Condition.WellFormed (Condition.levels · + 1) limit depth) group)
    (ht : Keeps (TermFits limit depth) term) :
    Keeps (ConditionFits limit depth) (readUnaryOver negated group term) := by
  intro ts x rest hts h
  unfold readUnaryOver at h
  split at h
  · obtain ⟨⟨c, after⟩, hc, h⟩ := bind_ok_iff.mp h
    cases h
    obtain ⟨hinner, hafter⟩ := hn _ _ _ (proper_cons.mp hts).2 hc
    exact ⟨⟨hinner.holds, hinner.room.mono (Nat.le_succ _)⟩, hafter⟩
  · split at h
    · next found hf =>
      unfold grouped? at hf
      split at hf
      · next c p after hc =>
        cases hf
        cases h
        obtain ⟨hgroup, hafter⟩ := hg _ _ _ (proper_cons.mp hts).2 hc
        exact ⟨hgroup.mono (Nat.le_succ _), (proper_cons.mp hafter).2⟩
      · cases hf
    · exact keeps_readComparison ht _ _ _ hts h
  · exact keeps_readComparison ht _ _ _ hts h

end Condition

theorem keeps_readUnaryAt (limit : Option Nat) (room depth : Nat) :
    Keeps (ConditionFits limit depth) (readUnaryAt limit room depth) := by
  induction room generalizing depth with
  | zero => exact keeps_expected _
  | succ room ih =>
    exact keeps_readUnaryOver (keeps_nested (ih (depth + 1)))
      (keeps_nested (keeps_readChoice (ih (depth + 1)))) (keeps_readTerm limit depth)

theorem keeps_readCondition (limit : Option Nat) (depth : Nat) :
    Keeps (ConditionFits limit depth) (readCondition limit depth) :=
  keeps_readChoice fun ts => keeps_readUnaryAt limit (ts.length + 1) depth ts

/-! ## Rules -/

theorem keeps_readDecision : Keeps (· ≠ .undecided) readDecision := by
  intro ts x rest hts h
  unfold readDecision at h
  split at h
  · cases h
    exact ⟨by decide, (proper_cons.mp hts).2⟩
  · cases h
    exact ⟨by decide, (proper_cons.mp hts).2⟩
  · cases h

abbrev RuleFits (limit : Option Nat) (depth : Nat) : Rule String → Prop :=
  Fits Rule.WellFormed Rule.levels limit depth

def MembersWellFormed (members : List (Rule String)) : Prop :=
  members ≠ [] ∧ Rule.MembersWellFormed members

theorem fits_members {limit : Option Nat} {depth : Nat} {members : List (Rule String)}
    (h : ∀ r ∈ members, RuleFits limit depth r) :
    Fits Rule.MembersWellFormed Rule.memberLevels limit depth members := by
  refine ⟨(Rule.membersWellFormed_iff members).mpr fun r hr => (h r hr).holds, ?_⟩
  induction members with
  | nil => exact roomFor_zero
  | cons r rs ih =>
    obtain ⟨hr, hrs⟩ := List.forall_mem_cons.mp h
    exact roomFor_max.mpr ⟨hr.room, ih hrs⟩

section Rule

variable {limit : Option Nat} {depth : Nat} {rule : Reader (Rule String)}
  {rules : Nat → Reader (Rule String)}

theorem keeps_readMembersFrom (hr : Keeps (RuleFits limit depth) rule) (room : Nat) :
    Keeps (fun members => ∀ r ∈ members, RuleFits limit depth r) (readMembersFrom rule room) := by
  induction room with
  | zero =>
    intro ts x rest hts h
    cases h
    simp [hts]
  | succ room ih =>
    intro ts x rest hts h
    simp only [readMembersFrom] at h
    split at h
    · obtain ⟨⟨member, after⟩, hm, h⟩ := bind_ok_iff.mp h
      obtain ⟨⟨members, last⟩, hms, h⟩ := bind_ok_iff.mp h
      cases h
      have hmember := hr _ _ _ (proper_cons.mp hts).2 hm
      have hmembers := ih _ _ _ hmember.2 hms
      exact ⟨List.forall_mem_cons.mpr ⟨hmember.1, hmembers.1⟩, hmembers.2⟩
    · cases h
      simp [hts]

theorem keeps_readMembers (hr : Keeps (RuleFits limit depth) rule) :
    Keeps (Fits MembersWellFormed Rule.memberLevels limit depth) (readMembers rule) := by
  intro ts x rest hts h
  obtain ⟨⟨member, after⟩, hm, h⟩ := bind_ok_iff.mp h
  obtain ⟨⟨members, last⟩, hms, h⟩ := bind_ok_iff.mp h
  cases h
  have hmember := hr _ _ _ hts hm
  have hmembers := keeps_readMembersFrom hr _ _ _ _ hmember.2 hms
  have hall := fits_members (List.forall_mem_cons.mpr ⟨hmember.1, hmembers.1⟩)
  exact ⟨⟨⟨by simp, hall.holds⟩, hall.room⟩, hmembers.2⟩

theorem keeps_readBlock (hr : Keeps (RuleFits limit (depth + 1)) (rules (depth + 1))) :
    Keeps (Fits MembersWellFormed (Rule.memberLevels · + 1) limit depth)
      (readBlock limit depth rules) := by
  intro ts x rest hts h
  obtain ⟨opened, ho, h⟩ := bind_ok_iff.mp h
  obtain ⟨⟨members, after⟩, hm, h⟩ := bind_ok_iff.mp h
  obtain ⟨closed, hc, h⟩ := bind_ok_iff.mp h
  cases h
  have hnested : Keeps (Fits MembersWellFormed (Rule.memberLevels · + 1) limit depth)
      (nested limit depth fun depth => readMembers (rules depth)) :=
    keeps_nested (keeps_readMembers hr)
  have hmembers := hnested _ _ _ (proper_of_expectMark hts ho) hm
  exact ⟨hmembers.1, proper_of_expectMark hmembers.2 hc⟩

/-- The level of the branch itself is counted where it opens. -/
theorem keeps_readBranch (hr : Keeps (RuleFits limit depth) (rules depth)) :
    Keeps (Fits Rule.WellFormed (Rule.levels · - 1) limit depth)
      (readBranch limit rules depth) := by
  intro ts x rest hts h
  obtain ⟨⟨condition, after⟩, hc, h⟩ := bind_ok_iff.mp h
  obtain ⟨⟨onTrue, last⟩, ht, h⟩ := bind_ok_iff.mp h
  have hcondition := keeps_readCondition limit depth _ _ _ hts hc
  have htrue := hr _ _ _ hcondition.2 ht
  dsimp only at h
  split at h
  · obtain ⟨⟨onFalse, final⟩, hf, h⟩ := bind_ok_iff.mp h
    cases h
    have hfalse := hr _ _ _ (proper_cons.mp htrue.2).2 hf
    refine ⟨⟨⟨hcondition.1.holds, htrue.1.holds, hfalse.1.holds⟩, ?_⟩, hfalse.2⟩
    exact roomFor_max.mpr ⟨hcondition.1.room, roomFor_max.mpr ⟨htrue.1.room, hfalse.1.room⟩⟩
  · cases h
    refine ⟨⟨⟨hcondition.1.holds, htrue.1.holds, trivial⟩, ?_⟩, htrue.2⟩
    exact roomFor_max.mpr ⟨hcondition.1.room, roomFor_max.mpr ⟨htrue.1.room, roomFor_zero⟩⟩

theorem keeps_readWhen (limit : Option Nat) (depth : Nat) :
    Keeps (RuleFits limit depth) (readWhen limit depth) := by
  intro ts x rest hts h
  obtain ⟨⟨decision, after⟩, hd, h⟩ := bind_ok_iff.mp h
  obtain ⟨next, hn, h⟩ := bind_ok_iff.mp h
  obtain ⟨⟨condition, last⟩, hc, h⟩ := bind_ok_iff.mp h
  cases h
  have hdecision := keeps_readDecision _ _ _ hts hd
  have hcondition :=
    keeps_readCondition limit depth _ _ _ (proper_of_expectKeyword hdecision.2 hn) hc
  exact ⟨⟨⟨hcondition.1.holds, hdecision.1⟩, hcondition.1.room⟩, hcondition.2⟩

/-- All groups with a target are read alike. -/
theorem keeps_readGroup (group : Decision → List (Rule String) → Rule String)
    (hg : ∀ d members, d ≠ .undecided → members ≠ [] → Rule.MembersWellFormed members →
      (group d members).WellFormed)
    (hlevels : ∀ d members, (group d members).levels = Rule.memberLevels members + 1)
    (hr : Keeps (RuleFits limit (depth + 1)) (rules (depth + 1))) :
    Keeps (RuleFits limit depth) (readGroup limit depth rules group) := by
  intro ts x rest hts h
  obtain ⟨⟨decision, after⟩, hd, h⟩ := bind_ok_iff.mp h
  obtain ⟨⟨members, last⟩, hm, h⟩ := bind_ok_iff.mp h
  cases h
  have hdecision := keeps_readDecision _ _ _ hts hd
  obtain ⟨⟨hmembers, hroom⟩, hlast⟩ := keeps_readBlock hr _ _ _ hdecision.2 hm
  exact ⟨⟨hg _ _ hdecision.1 hmembers.1 hmembers.2, (hlevels _ _).symm ▸ hroom⟩, hlast⟩

theorem keeps_readRuleOver (hr : Keeps (RuleFits limit (depth + 1)) (rules (depth + 1))) :
    Keeps (RuleFits limit depth) (readRuleOver limit rules depth) := by
  intro ts x rest hts h
  unfold readRuleOver at h
  split at h
  · obtain ⟨⟨decision, after⟩, hd, h⟩ := bind_ok_iff.mp h
    cases h
    have hdecision := keeps_readDecision _ _ _ (proper_cons.mp hts).2 hd
    exact ⟨⟨hdecision.1, roomFor_zero⟩, hdecision.2⟩
  · cases h
    exact ⟨⟨trivial, roomFor_zero⟩, (proper_cons.mp hts).2⟩
  · exact keeps_readWhen limit depth _ _ _ hts h
  · exact keeps_readWhen limit depth _ _ _ hts h
  · obtain ⟨hbranch, hrest⟩ := keeps_nested (keeps_readBranch hr) _ _ _ (proper_cons.mp hts).2 h
    exact ⟨hbranch.mono (by omega), hrest⟩
  · exact keeps_readGroup .majority (fun _ _ hd hm hw => ⟨hd, hm, hw⟩) (fun _ _ => rfl) hr _ _ _
      (proper_cons.mp hts).2 h
  · exact keeps_readGroup .all (fun _ _ hd hm hw => ⟨hd, hm, hw⟩) (fun _ _ => rfl) hr _ _ _
      (proper_cons.mp hts).2 h
  · exact keeps_readGroup .any (fun _ _ hd hm hw => ⟨hd, hm, hw⟩) (fun _ _ => rfl) hr _ _ _
      (proper_cons.mp hts).2 h
  · obtain ⟨⟨members, after⟩, hm, h⟩ := bind_ok_iff.mp h
    cases h
    obtain ⟨⟨hmembers, hroom⟩, hlast⟩ := keeps_readBlock hr _ _ _ (proper_cons.mp hts).2 hm
    exact ⟨⟨hmembers, hroom⟩, hlast⟩
  · cases h

end Rule

theorem keeps_readRuleAt (limit : Option Nat) (room depth : Nat) :
    Keeps (RuleFits limit depth) (readRuleAt limit room depth) := by
  induction room generalizing depth with
  | zero => exact keeps_expected _
  | succ room ih => exact keeps_readRuleOver (ih (depth + 1))

theorem keeps_readRule (limit : Option Nat) (depth : Nat) :
    Keeps (RuleFits limit depth) (readRule limit depth) :=
  fun ts => keeps_readRuleAt limit (ts.length + 1) depth ts

/-! ## Rule sets -/

abbrev AttributeFits (limit : Option Nat) : Attribute String → Prop :=
  Fits Attribute.WellFormed (·.value.levels) limit 0

theorem keeps_readAttribute (limit : Option Nat) :
    Keeps (AttributeFits limit) (readAttribute limit) := by
  intro ts x rest hts h
  obtain ⟨⟨name, after⟩, hn, h⟩ := bind_ok_iff.mp h
  obtain ⟨next, he, h⟩ := bind_ok_iff.mp h
  obtain ⟨⟨value, last⟩, hv, h⟩ := bind_ok_iff.mp h
  cases h
  have hname := keeps_readName _ _ _ hts hn
  have hvalue := keeps_readTerm limit 0 _ _ _ (proper_of_expectMark hname.2 he) hv
  exact ⟨⟨⟨hname.1, hvalue.1.holds⟩, hvalue.1.room⟩, hvalue.2⟩

theorem keeps_readAttributes (limit : Option Nat) (room : Nat) :
    Keeps (fun attributes => ∀ a ∈ attributes, AttributeFits limit a)
      (readAttributes limit room) := by
  induction room with
  | zero =>
    intro ts x rest hts h
    cases h
    simp [hts]
  | succ room ih =>
    intro ts x rest hts h
    simp only [readAttributes] at h
    split at h
    · obtain ⟨⟨a, after⟩, ha, h⟩ := bind_ok_iff.mp h
      obtain ⟨⟨as, last⟩, has, h⟩ := bind_ok_iff.mp h
      cases h
      have hfirst := keeps_readAttribute limit _ _ _ hts ha
      have hmore := ih _ _ _ hfirst.2 has
      exact ⟨List.forall_mem_cons.mpr ⟨hfirst.1, hmore.1⟩, hmore.2⟩
    · cases h
      simp [hts]

theorem keeps_readRules (limit : Option Nat) (room : Nat) :
    Keeps (fun rules => ∀ r ∈ rules, RuleFits limit 0 r) (readRules limit room) := by
  induction room with
  | zero =>
    intro ts x rest hts h
    cases h
    simp [hts]
  | succ room ih =>
    intro ts x rest hts h
    simp only [readRules] at h
    split at h
    · cases h
      simp [hts]
    · obtain ⟨⟨rule, after⟩, hr, h⟩ := bind_ok_iff.mp h
      obtain ⟨⟨rules, last⟩, hrs, h⟩ := bind_ok_iff.mp h
      cases h
      have hfirst := keeps_readRule limit 0 _ _ _ hts hr
      have hmore := ih _ _ _ hfirst.2 hrs
      exact ⟨List.forall_mem_cons.mpr ⟨hfirst.1, hmore.1⟩, hmore.2⟩

theorem keeps_readRuleSet (limit : Option Nat) :
    Keeps (fun set => set.WellFormed ∧ ∀ most ∈ limit, set.LevelsWithin most)
      (readRuleSet limit) := by
  intro ts x rest hts h
  obtain ⟨⟨attributes, after⟩, ha, h⟩ := bind_ok_iff.mp h
  obtain ⟨⟨rules, last⟩, hr, h⟩ := bind_ok_iff.mp h
  obtain ⟨hattributes, hafter⟩ := keeps_readAttributes limit _ _ _ _ hts ha
  obtain ⟨hrules, hlast⟩ := keeps_readRules limit _ _ _ _ hafter hr
  dsimp only at h
  split at h
  · cases h
  · next hne =>
    cases h
    refine ⟨⟨⟨?_, ?_, by simpa using hne⟩, fun most hmost => ⟨?_, ?_⟩⟩, hlast⟩
    · exact fun a ha => (hattributes a ha).holds
    · exact fun r hr => (hrules r hr).holds
    · exact fun a ha => (hattributes a ha).room most hmost
    · exact fun r hr => (hrules r hr).room most hmost

theorem of_readWhole {P : α → Prop} {reader : Reader α} (hr : Keeps P reader) {text : String}
    {x : α} (h : readWhole reader text = .ok x) : P x := by
  obtain ⟨tokens, hs, h⟩ := bind_ok_iff.mp h
  obtain ⟨⟨y, rest⟩, hy, h⟩ := bind_ok_iff.mp h
  dsimp only at h
  split at h
  · cases h
    exact (hr _ _ _ (scan_proper hs) hy).1
  · cases h

/-- Whatever a policy text is read as, it is well formed. -/
theorem wellFormed_of_ruleSetOf {text : String} {set : RuleSet String}
    (h : ruleSetOf text = .ok set) : set.WellFormed :=
  (of_readWhole (keeps_readRuleSet nestingLimit) h).1

/-- An accepted policy has a rule, its names are identifiers, the parameters of a call have names of
their own, its groups have members, its decisions are decided ones, and on no way into it more than
128 coercions, branches and groups open. -/
theorem accepted_wellFormed {text : String} {set : RuleSet String}
    (h : ruleSetOf text = .ok set) : set.WellFormed ∧ set.LevelsWithin 128 := by
  obtain ⟨hwell, hlevels⟩ := of_readWhole (keeps_readRuleSet nestingLimit) h
  exact ⟨hwell, hlevels 128 rfl⟩

/-- A call with two parameters, and a branch with a group in its leg. -/
theorem accepted_wellFormed_branch :
    let text := "a = string 1\nb = GET \"u\" k = a, a = a\n" ++
      "if not (a != b) all permit { always deny, never }"
    let set : RuleSet String :=
      ⟨[⟨"a", .coerce (.number ⟨1, by decide⟩) .string⟩,
          ⟨"b", .rest "u" .get [("k", "a"), ("a", "a")]⟩],
        [.branch (.not (.not (.equal (.attr "a") (.attr "b"))))
          (.all .permit [.always .deny, .never]) .never]⟩
    ruleSetOf text = .ok set ∧ set.WellFormed ∧ set.LevelsWithin 128 := by
  intro text set
  have hread : ruleSetOf text = .ok set := by decide +kernel
  exact ⟨hread, accepted_wellFormed hread⟩

end Policy.Source
