import Policy.Proofs.Source.Local.Rule

namespace Policy.Source

variable {α β : Type}

/-! ## What readers leave

A reader leaves the tokens behind those that it took, with their positions. -/

/-- The tokens stand behind others, of which there is at least one. -/
structure Behind (rest ts : List Located) : Prop where
  suffix : rest <:+ ts
  shorter : rest.length < ts.length

namespace Behind

variable {ts mid rest : List Located} {t : Located}

theorem of_suffix (h : rest <:+ ts) : Behind rest (t :: ts) where
  suffix := h.trans (List.suffix_cons t ts)
  shorter := Nat.lt_succ_of_le h.length_le

theorem self : Behind ts (t :: ts) := of_suffix List.suffix_rfl

theorem trans_suffix (h : Behind rest mid) (hmid : mid <:+ ts) : Behind rest ts where
  suffix := h.suffix.trans hmid
  shorter := Nat.lt_of_lt_of_le h.shorter hmid.length_le

theorem of_suffix_trans (hrest : rest <:+ mid) (h : Behind mid ts) : Behind rest ts where
  suffix := hrest.trans h.suffix
  shorter := Nat.lt_of_le_of_lt hrest.length_le h.shorter

theorem trans (h : Behind rest mid) (hmid : Behind mid ts) : Behind rest ts :=
  h.trans_suffix hmid.suffix

end Behind

/-- The reader leaves the tokens behind those that it took, perhaps none. -/
def Leaves (reader : Reader α) : Prop :=
  ∀ ts x rest, reader ts = .ok (x, rest) → rest <:+ ts

/-- The reader takes at least one token, and leaves those behind it. -/
def Advances (reader : Reader α) : Prop :=
  ∀ ts x rest, reader ts = .ok (x, rest) → Behind rest ts

theorem behind_of_expectMark {m : Mark} {wanted : String} {ts rest : List Located}
    (h : expectMark m wanted ts = .ok rest) : Behind rest ts := by
  obtain ⟨p, rfl⟩ := exists_of_expectMark h
  exact .self

theorem behind_of_expectKeyword {k : Keyword} {ts rest : List Located}
    (h : expectKeyword k ts = .ok rest) : Behind rest ts := by
  obtain ⟨p, rfl⟩ := exists_of_expectKeyword h
  exact .self

theorem advances_expected (wanted : String) : Advances (expected wanted : Reader α) := by
  intro ts x rest h
  cases h

theorem Advances.nested {limit : Option Nat} {depth : Nat} {inner : Nat → Reader α}
    (h : Advances (inner (depth + 1))) : Advances (Source.nested limit depth inner) := by
  intro ts x rest hx
  rw [nested_of_ok hx inner] at hx
  exact h ts x rest hx

theorem advances_readName : Advances readName := by
  intro ts x rest h
  unfold readName at h
  split at h
  · cases h
    exact .self
  · cases h
  · cases h

theorem advances_readString : Advances readString := by
  intro ts x rest h
  unfold readString at h
  split at h
  · cases h
    exact .self
  · cases h

theorem advances_readDecision : Advances readDecision := by
  intro ts d rest h
  obtain ⟨-, p, rfl⟩ := exists_of_readDecision h
  exact .self

section Chain

variable {operand : Reader α} {op : Token → Option (α → α → α)}

theorem leaves_chainFrom (ho : Advances operand) (room : Nat) (left : α) :
    Leaves (chainFrom operand op room left) := by
  induction room generalizing left with
  | zero =>
    intro ts x rest h
    cases h
    exact List.suffix_rfl
  | succ room ih =>
    intro ts x rest h
    simp only [chainFrom] at h
    split at h
    · cases h
      exact List.suffix_rfl
    · next join _ =>
      obtain ⟨⟨right, after⟩, hr, h⟩ := bind_ok_iff.mp h
      have hright := (ho _ _ _ hr).suffix
      exact (ih (join left right) _ _ _ h).trans (hright.trans (List.tail_suffix ts))

theorem Advances.chain (ho : Advances operand) : Advances (Source.chain operand op) := by
  intro ts x rest h
  obtain ⟨⟨first, after⟩, hf, h⟩ := bind_ok_iff.mp h
  exact .of_suffix_trans (leaves_chainFrom ho _ _ _ _ _ h) (ho _ _ _ hf)

end Chain

/-! ## Terms -/

theorem leaves_readParameters (room : Nat) (seen : List String) :
    Leaves (readParameters room seen) := by
  induction room generalizing seen with
  | zero =>
    intro ts params rest h
    cases h
    exact List.suffix_rfl
  | succ room ih =>
    intro ts params rest h
    simp only [readParameters] at h
    split at h
    · cases h
      exact List.suffix_rfl
    · next name p ref after hp =>
      have hafter : after <:+ ts := by
        unfold parameter? at hp
        split at hp
        · cases hp
          exact (((List.suffix_cons _ _).trans (List.suffix_cons _ _)).trans (List.suffix_cons _ _))
        · cases hp
      split at h
      · cases h
      · split at h
        · obtain ⟨⟨more, last⟩, hmore, h⟩ := bind_ok_iff.mp h
          cases h
          exact (ih _ _ _ _ hmore).trans ((List.tail_suffix after).trans hafter)
        · cases h
          exact hafter

theorem advances_readCall (method : Method) : Advances (readCall method) := by
  intro ts x rest h
  obtain ⟨⟨url, after⟩, hu, h⟩ := bind_ok_iff.mp h
  obtain ⟨⟨params, last⟩, hp, h⟩ := bind_ok_iff.mp h
  cases h
  exact .of_suffix_trans (leaves_readParameters _ _ _ _ _ hp) (advances_readString _ _ _ hu)

section Term

variable {inner : Reader (Term String)}

theorem advances_readAtom (hi : Advances inner) : Advances (readAtom inner) := by
  intro ts x rest h
  unfold readAtom at h
  split at h
  · cases h
    exact .self
  · cases h
    exact .self
  · cases h
    exact .self
  · obtain ⟨⟨t, after⟩, ht, h⟩ := bind_ok_iff.mp h
    obtain ⟨last, hl, h⟩ := bind_ok_iff.mp h
    cases h
    exact (behind_of_expectMark hl).trans ((hi _ _ _ ht).trans .self)
  · obtain ⟨⟨t, after⟩, ht, h⟩ := bind_ok_iff.mp h
    cases h
    exact (hi _ _ _ ht).trans .self
  · obtain ⟨⟨t, after⟩, ht, h⟩ := bind_ok_iff.mp h
    cases h
    exact (hi _ _ _ ht).trans .self
  · obtain ⟨⟨key, after⟩, hk, h⟩ := bind_ok_iff.mp h
    cases h
    exact (advances_readString _ _ _ hk).trans .self
  · exact (advances_readCall _ _ _ _ h).trans .self
  · cases h
  · cases h

theorem advances_readSum (hi : Advances inner) : Advances (readSum inner) :=
  (advances_readAtom hi).chain.chain

theorem advances_readTermOver (hi : Advances inner) : Advances (readTermOver inner) := by
  intro ts x rest h
  obtain ⟨⟨subject, after⟩, hs, h⟩ := bind_ok_iff.mp h
  have hsubject := advances_readSum hi _ _ _ hs
  dsimp only at h
  split at h
  · obtain ⟨⟨pattern, last⟩, hp, h⟩ := bind_ok_iff.mp h
    cases h
    exact (advances_readSum hi _ _ _ hp).trans (.trans .self hsubject)
  · cases h
    exact hsubject

end Term

theorem advances_readTermAt (limit : Option Nat) (room depth : Nat) :
    Advances (readTermAt limit room depth) := by
  induction room generalizing depth with
  | zero => exact advances_expected _
  | succ room ih => exact advances_readTermOver (Advances.nested (ih (depth + 1)))

theorem advances_readTerm (limit : Option Nat) (depth : Nat) : Advances (readTerm limit depth) :=
  fun ts => advances_readTermAt limit (ts.length + 1) depth ts

/-! ## Conditions -/

theorem advances_readComparison {term : Reader (Term String)} (ht : Advances term) :
    Advances (readComparison term) := by
  intro ts x rest h
  obtain ⟨⟨left, after⟩, hl, h⟩ := bind_ok_iff.mp h
  dsimp only at h
  split at h
  · cases h
  · obtain ⟨⟨right, last⟩, hr, h⟩ := bind_ok_iff.mp h
    cases h
    exact ((ht _ _ _ hr).trans_suffix (List.tail_suffix after)).trans (ht _ _ _ hl)

theorem advances_readChoice {unary : Reader (Condition String)} (hu : Advances unary) :
    Advances (readChoice unary) :=
  hu.chain.chain

theorem grouped?_eq_some {group : Reader (Condition String)} {ts rest : List Located}
    {c : Condition String} (h : grouped? group ts = some (c, rest)) :
    ∃ p, group ts = .ok (c, ⟨.mark .rparen, p⟩ :: rest) := by
  unfold grouped? at h
  split at h
  · next p _ hc =>
    cases h
    exact ⟨p, hc⟩
  · cases h

theorem advances_readUnaryOver {negated group : Reader (Condition String)}
    {term : Reader (Term String)} (hn : Advances negated) (hg : Advances group)
    (ht : Advances term) : Advances (readUnaryOver negated group term) := by
  intro ts x rest h
  unfold readUnaryOver at h
  split at h
  · obtain ⟨⟨c, after⟩, hc, h⟩ := bind_ok_iff.mp h
    cases h
    exact (hn _ _ _ hc).trans .self
  · split at h
    · next found hf =>
      cases h
      obtain ⟨p, hc⟩ := grouped?_eq_some hf
      exact .trans .self ((hg _ _ _ hc).trans .self)
    · exact advances_readComparison ht _ _ _ h
  · exact advances_readComparison ht _ _ _ h

theorem advances_readUnaryAt (limit : Option Nat) (room depth : Nat) :
    Advances (readUnaryAt limit room depth) := by
  induction room generalizing depth with
  | zero => exact advances_expected _
  | succ room ih =>
    exact advances_readUnaryOver (Advances.nested (ih (depth + 1)))
      (Advances.nested (advances_readChoice (ih (depth + 1)))) (advances_readTerm limit depth)

theorem advances_readCondition (limit : Option Nat) (depth : Nat) :
    Advances (readCondition limit depth) :=
  advances_readChoice fun ts => advances_readUnaryAt limit (ts.length + 1) depth ts

/-! ## Rules -/

section Rule

variable {limit : Option Nat} {depth : Nat} {rule : Reader (Rule String)}
  {rules : Nat → Reader (Rule String)}

theorem leaves_readMembersFrom (hr : Advances rule) (room : Nat) :
    Leaves (readMembersFrom rule room) := by
  induction room with
  | zero =>
    intro ts x rest h
    cases h
    exact List.suffix_rfl
  | succ room ih =>
    intro ts x rest h
    simp only [readMembersFrom] at h
    split at h
    · obtain ⟨⟨member, after⟩, hm, h⟩ := bind_ok_iff.mp h
      obtain ⟨⟨members, last⟩, hms, h⟩ := bind_ok_iff.mp h
      cases h
      have hmember := (hr _ _ _ hm).suffix
      exact (ih _ _ _ hms).trans (hmember.trans (List.suffix_cons _ _))
    · cases h
      exact List.suffix_rfl

theorem advances_readMembers (hr : Advances rule) : Advances (readMembers rule) := by
  intro ts x rest h
  obtain ⟨⟨member, after⟩, hm, h⟩ := bind_ok_iff.mp h
  obtain ⟨⟨members, last⟩, hms, h⟩ := bind_ok_iff.mp h
  cases h
  exact .of_suffix_trans (leaves_readMembersFrom hr _ _ _ _ hms) (hr _ _ _ hm)

theorem advances_readBlock (hr : Advances (rules (depth + 1))) :
    Advances (readBlock limit depth rules) := by
  intro ts x rest h
  obtain ⟨opened, ho, h⟩ := bind_ok_iff.mp h
  obtain ⟨⟨members, after⟩, hm, h⟩ := bind_ok_iff.mp h
  obtain ⟨closed, hc, h⟩ := bind_ok_iff.mp h
  cases h
  have hnested : Advances (nested limit depth fun depth => readMembers (rules depth)) :=
    Advances.nested (advances_readMembers hr)
  have hmembers := hnested _ _ _ hm
  exact (behind_of_expectMark hc).trans (hmembers.trans (behind_of_expectMark ho))

theorem advances_readBranch (hr : Advances (rules depth)) :
    Advances (readBranch limit rules depth) := by
  intro ts x rest h
  obtain ⟨⟨condition, after⟩, hc, h⟩ := bind_ok_iff.mp h
  obtain ⟨⟨onTrue, last⟩, ht, h⟩ := bind_ok_iff.mp h
  have htrue := (hr _ _ _ ht).trans (advances_readCondition limit depth _ _ _ hc)
  dsimp only at h
  split at h
  · obtain ⟨⟨onFalse, final⟩, hf, h⟩ := bind_ok_iff.mp h
    cases h
    exact (hr _ _ _ hf).trans (.trans .self htrue)
  · cases h
    exact htrue

theorem advances_readWhen (limit : Option Nat) (depth : Nat) :
    Advances (readWhen limit depth) := by
  intro ts x rest h
  obtain ⟨⟨decision, after⟩, hd, h⟩ := bind_ok_iff.mp h
  obtain ⟨next, hn, h⟩ := bind_ok_iff.mp h
  obtain ⟨⟨condition, last⟩, hc, h⟩ := bind_ok_iff.mp h
  cases h
  have hcondition := advances_readCondition limit depth _ _ _ hc
  exact hcondition.trans ((behind_of_expectKeyword hn).trans (advances_readDecision _ _ _ hd))

theorem advances_readGroup (group : Decision → List (Rule String) → Rule String)
    (hr : Advances (rules (depth + 1))) : Advances (readGroup limit depth rules group) := by
  intro ts x rest h
  obtain ⟨⟨decision, after⟩, hd, h⟩ := bind_ok_iff.mp h
  obtain ⟨⟨members, last⟩, hm, h⟩ := bind_ok_iff.mp h
  cases h
  exact (advances_readBlock hr _ _ _ hm).trans (advances_readDecision _ _ _ hd)

theorem advances_readRuleOver (hr : Advances (rules (depth + 1))) :
    Advances (readRuleOver limit rules depth) := by
  intro ts x rest h
  unfold readRuleOver at h
  split at h
  · obtain ⟨⟨decision, after⟩, hd, h⟩ := bind_ok_iff.mp h
    cases h
    exact (advances_readDecision _ _ _ hd).trans .self
  · cases h
    exact .self
  · exact advances_readWhen limit depth _ _ _ h
  · exact advances_readWhen limit depth _ _ _ h
  · exact (Advances.nested (advances_readBranch hr) _ _ _ h).trans .self
  · exact (advances_readGroup .majority hr _ _ _ h).trans .self
  · exact (advances_readGroup .all hr _ _ _ h).trans .self
  · exact (advances_readGroup .any hr _ _ _ h).trans .self
  · obtain ⟨⟨members, after⟩, hm, h⟩ := bind_ok_iff.mp h
    cases h
    exact (advances_readBlock hr _ _ _ hm).trans .self
  · cases h

end Rule

theorem advances_readRuleAt (limit : Option Nat) (room depth : Nat) :
    Advances (readRuleAt limit room depth) := by
  induction room generalizing depth with
  | zero => exact advances_expected _
  | succ room ih => exact advances_readRuleOver (ih (depth + 1))

theorem advances_readRule (limit : Option Nat) (depth : Nat) : Advances (readRule limit depth) :=
  fun ts => advances_readRuleAt limit (ts.length + 1) depth ts

theorem advances_readAttribute (limit : Option Nat) : Advances (readAttribute limit) := by
  intro ts x rest h
  obtain ⟨⟨name, after⟩, hn, h⟩ := bind_ok_iff.mp h
  obtain ⟨next, he, h⟩ := bind_ok_iff.mp h
  obtain ⟨⟨value, last⟩, hv, h⟩ := bind_ok_iff.mp h
  cases h
  have hvalue := advances_readTerm limit 0 _ _ _ hv
  exact hvalue.trans ((behind_of_expectMark he).trans (advances_readName _ _ _ hn))

theorem leaves_readAttributes (limit : Option Nat) (room : Nat) :
    Leaves (readAttributes limit room) := by
  induction room with
  | zero =>
    intro ts x rest h
    cases h
    exact List.suffix_rfl
  | succ room ih =>
    intro ts x rest h
    simp only [readAttributes] at h
    split at h
    · obtain ⟨⟨a, after⟩, ha, h⟩ := bind_ok_iff.mp h
      obtain ⟨⟨as, last⟩, has, h⟩ := bind_ok_iff.mp h
      cases h
      exact (ih _ _ _ has).trans (advances_readAttribute limit _ _ _ ha).suffix
    · cases h
      exact List.suffix_rfl

/-! ## Room

Each level takes a token, so that a reader with room for all tokens never runs out of it. -/

section Chain

variable {f g : Reader α} {op : Token → Option (α → α → α)} {most : Nat}

theorem chainFrom_congr (hf : Advances f)
    (h : ∀ ts : List Located, ts.length ≤ most → f ts = g ts) {room : Nat} {left : α}
    {ts : List Located} (hts : ts.length ≤ most) :
    chainFrom f op room left ts = chainFrom g op room left ts := by
  induction room generalizing left ts with
  | zero => rfl
  | succ room ih =>
    simp only [chainFrom]
    split
    · rfl
    · have htail : ts.tail.length ≤ most := Nat.le_trans (List.tail_suffix ts).length_le hts
      rw [← h ts.tail htail]
      cases hr : f ts.tail with
      | error refusal => rfl
      | ok found =>
        have hshorter := (hf _ _ _ hr).shorter
        exact ih (Nat.le_trans (Nat.le_of_lt hshorter) htail)

theorem chain_congr (hf : Advances f)
    (h : ∀ ts : List Located, ts.length ≤ most → f ts = g ts) {ts : List Located}
    (hts : ts.length ≤ most) : chain f op ts = chain g op ts := by
  simp only [chain]
  rw [← h ts hts]
  cases hr : f ts with
  | error refusal => rfl
  | ok found =>
    have hshorter := (hf _ _ _ hr).shorter
    exact chainFrom_congr hf h (Nat.le_trans (Nat.le_of_lt hshorter) hts)

end Chain

theorem readChoice_congr {f g : Reader (Condition String)} {most : Nat} (hf : Advances f)
    (h : ∀ ts : List Located, ts.length ≤ most → f ts = g ts) {ts : List Located}
    (hts : ts.length ≤ most) : readChoice f ts = readChoice g ts :=
  chain_congr hf.chain (fun _ => chain_congr hf h) hts

theorem nested_congr {limit : Option Nat} {depth : Nat} {f g : Nat → Reader α}
    {ts : List Located} (h : f (depth + 1) ts = g (depth + 1) ts) :
    nested limit depth f ts = nested limit depth g ts := by
  unfold nested
  split
  · split
    · rfl
    · exact h
  · exact h

theorem readUnaryOver_congr {negated negated' group group' : Reader (Condition String)}
    {term : Reader (Term String)} {ts : List Located}
    (hn : ∀ t rest, ts = t :: rest → negated rest = negated' rest)
    (hg : ∀ t rest, ts = t :: rest → group rest = group' rest) :
    readUnaryOver negated group term ts = readUnaryOver negated' group' term ts := by
  unfold readUnaryOver
  split
  · rw [hn _ _ rfl]
  · simp only [grouped?, hg _ _ rfl]
  · rfl

/-- By induction on the number of tokens, of which each level takes one. -/
theorem readUnaryAt_congr (limit : Option Nat) {most room room' depth : Nat} {ts : List Located}
    (hts : ts.length ≤ most) (hroom : most < room) (hroom' : most < room') :
    readUnaryAt limit room depth ts = readUnaryAt limit room' depth ts := by
  induction most generalizing room room' depth ts with
  | zero =>
    obtain ⟨room, rfl⟩ : ∃ k, room = k + 1 := ⟨room - 1, by omega⟩
    obtain ⟨room', rfl⟩ : ∃ k, room' = k + 1 := ⟨room' - 1, by omega⟩
    obtain rfl : ts = [] := List.length_eq_zero_iff.mp (Nat.le_zero.mp hts)
    rfl
  | succ most ih =>
    obtain ⟨room, rfl⟩ : ∃ k, room = k + 1 := ⟨room - 1, by omega⟩
    obtain ⟨room', rfl⟩ : ∃ k, room' = k + 1 := ⟨room' - 1, by omega⟩
    have hinner (others : List Located) (hothers : others.length ≤ most) :
        readUnaryAt limit room (depth + 1) others = readUnaryAt limit room' (depth + 1) others :=
      ih hothers (by omega) (by omega)
    refine readUnaryOver_congr (fun t rest heq => ?_) (fun t rest heq => ?_)
    · subst heq
      exact nested_congr (hinner rest (Nat.le_of_succ_le_succ hts))
    · subst heq
      exact nested_congr (readChoice_congr (advances_readUnaryAt limit room (depth + 1)) hinner
        (Nat.le_of_succ_le_succ hts))

/-- With room for all tokens, more room makes no difference. -/
theorem readUnaryAt_eq_readUnary (limit : Option Nat) {room depth : Nat} {ts : List Located}
    (h : ts.length < room) : readUnaryAt limit room depth ts = readUnary limit depth ts :=
  readUnaryAt_congr limit (Nat.le_refl _) h (Nat.lt_succ_self _)

theorem readChoice_eq_readCondition (limit : Option Nat) {room depth : Nat} {ts : List Located}
    (h : ts.length < room) :
    readChoice (readUnaryAt limit room depth) ts = readCondition limit depth ts :=
  readChoice_congr (advances_readUnaryAt limit room depth)
    (fun _ hothers => readUnaryAt_eq_readUnary limit (Nat.lt_of_le_of_lt hothers h)) (Nat.le_refl _)

end Policy.Source
