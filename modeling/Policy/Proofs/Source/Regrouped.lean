import Policy.Proofs.Source.Layout
import Policy.Proofs.Source.Limits
import Mathlib.Order.Basic

namespace Policy.Source

variable {α β : Type}

/-! ## Conditions in parentheses that are read as terms

What stands in the parentheses begins with a negation, or with a term in front of a comparison
sign. So there is no term in these parentheses. -/

/-- The attempt to read a condition behind an opening parenthesis, up to the closing one. -/
abbrev groupAt (limit : Option Nat) (room depth : Nat) (ts : List Located) :
    Option (Condition String × List Located) :=
  grouped? (nested limit depth fun depth => readChoice (readUnaryAt limit room depth)) ts

/-- With room for all tokens, the attempt reads a condition. -/
theorem groupAt_eq (limit : Option Nat) {room depth : Nat} {ts : List Located}
    (h : ts.length < room) :
    groupAt limit room depth ts = grouped? (nested limit depth (readCondition limit)) ts := by
  have hread : nested limit depth (fun depth => readChoice (readUnaryAt limit room depth)) ts =
      nested limit depth (readCondition limit) ts :=
    nested_congr (readChoice_eq_readCondition limit h)
  simp only [groupAt, grouped?, hread]

/-- Where a condition stands that is read as a term: at a negation, or at the sign of a comparison,
in front of which a parenthesis should have been closed. -/
inductive Misread : Cause → Prop
  | negation : Misread (.reservedWord .not)
  | sign {t : Token} (h : (comparison? t).isSome) : Misread (.unexpected "')'" t)

/-- Read as a term, the tokens lead to a negation or up to the sign of a comparison. -/
def LeadsToSign (limit : Option Nat) (depth : Nat) (ts : List Located) : Prop :=
  (∃ r, readTerm limit depth ts = .error r ∧ Misread r.cause) ∨
    ∃ t after, readTerm limit depth ts = .ok (t, after) ∧ (comparison? (peek after)).isSome

section Misread

variable {limit : Option Nat} {depth : Nat} {p : Position} {behind : List Located}

theorem expectMark_of_sign {ts : List Located} (h : (comparison? (peek ts)).isSome) :
    ∃ r, expectMark .rparen "')'" ts = .error r ∧ Misread r.cause := by
  unfold expectMark
  split
  · next m q rest =>
    have hm : m ≠ .rparen := by
      rintro rfl
      cases h
    rw [if_neg hm]
    exact ⟨_, rfl, .sign h⟩
  · exact ⟨_, rfl, .sign h⟩

theorem readTermOver_of_error {inner : Reader (Term String)} {ts : List Located} {r : Refusal}
    (h : readAtom inner ts = .error r) : readTermOver inner ts = .error r := by
  simp only [readTermOver, readSum, chain, h, error_bind]

/-- Behind an opening parenthesis, a sign stands where the closing one should. -/
theorem readTerm_of_leadsToSign (hopen : ∀ inner : Nat → Reader (Term String),
    nested limit depth inner = inner (depth + 1)) (h : LeadsToSign limit (depth + 1) behind) :
    ∃ r, readTerm limit depth (⟨.mark .lparen, p⟩ :: behind) = .error r ∧ Misread r.cause := by
  suffices hatom : ∃ r, readAtom (nested limit depth (readTermAt limit (behind.length + 1)))
      (⟨.mark .lparen, p⟩ :: behind) = .error r ∧ Misread r.cause by
    obtain ⟨r, hr, hcause⟩ := hatom
    exact ⟨r, readTermOver_of_error hr, hcause⟩
  have hinner : nested limit depth (readTermAt limit (behind.length + 1)) behind =
      readTerm limit (depth + 1) behind := by
    rw [hopen]
    rfl
  simp only [readAtom, hinner]
  rcases h with ⟨r, hr, hcause⟩ | ⟨t, after, ht, hsign⟩
  · exact ⟨r, by rw [hr, error_bind], hcause⟩
  · obtain ⟨r, hr, hcause⟩ := expectMark_of_sign hsign
    exact ⟨r, by simp only [ht, ok_bind, hr, error_bind], hcause⟩

theorem leadsToSign_of_readComparison {ts rest : List Located} {c : Condition String}
    (h : readComparison (readTerm limit depth) ts = .ok (c, rest)) :
    LeadsToSign limit depth ts := by
  obtain ⟨⟨left, after⟩, hl, h⟩ := bind_ok_iff.mp h
  dsimp only at h
  split at h
  · cases h
  · next compare hsign => exact .inr ⟨left, after, hl, by rw [hsign]; rfl⟩

theorem exists_first_of_readChoice {unary : Reader (Condition String)} {ts rest : List Located}
    {c : Condition String} (h : readChoice unary ts = .ok (c, rest)) :
    ∃ first after, unary ts = .ok (first, after) := by
  obtain ⟨⟨conjunction, afterConjunction⟩, hconjunction, -⟩ := bind_ok_iff.mp h
  obtain ⟨⟨first, after⟩, hfirst, -⟩ := bind_ok_iff.mp hconjunction
  exact ⟨first, after, hfirst⟩

theorem readTerm_of_grouped {room : Nat} {found : Condition String × List Located}
    (hunary : ∀ ts first after, readUnaryAt limit room (depth + 1) ts = .ok (first, after) →
      LeadsToSign limit (depth + 1) ts)
    (h : groupAt limit room depth behind = some found) :
    ∃ r, readTerm limit depth (⟨.mark .lparen, p⟩ :: behind) = .error r ∧ Misread r.cause := by
  obtain ⟨q, hgroup⟩ := grouped?_eq_some h
  have hopen := nested_of_ok (β := Term String) hgroup
  rw [nested_of_ok hgroup fun depth => readChoice (readUnaryAt limit room depth)] at hgroup
  obtain ⟨first, after, hfirst⟩ := exists_first_of_readChoice hgroup
  exact readTerm_of_leadsToSign hopen (hunary _ _ _ hfirst)

/-- By induction on the room, of which each parenthesis at the front takes one. -/
theorem leadsToSign_of_readUnaryAt {room : Nat} {ts rest : List Located} {c : Condition String}
    (h : readUnaryAt limit room depth ts = .ok (c, rest)) : LeadsToSign limit depth ts := by
  induction room generalizing depth ts c rest with
  | zero => cases h
  | succ room ih =>
    rw [readUnaryAt] at h
    unfold readUnaryOver at h
    split at h
    · exact .inl ⟨_, rfl, .negation⟩
    · split at h
      · next found hfound => exact .inl (readTerm_of_grouped (fun _ _ _ => ih) hfound)
      · exact leadsToSign_of_readComparison h
    · exact leadsToSign_of_readComparison h

/-- Where a condition stands in parentheses, no comparison begins with them. -/
theorem readComparison_of_grouped {room : Nat} {found : Condition String × List Located}
    (h : groupAt limit room depth behind = some found) :
    ∃ r, readComparison (readTerm limit depth) (⟨.mark .lparen, p⟩ :: behind) = .error r ∧
      Misread r.cause := by
  obtain ⟨r, hr, hcause⟩ :=
    readTerm_of_grouped (p := p) (fun _ _ _ => leadsToSign_of_readUnaryAt) h
  exact ⟨r, by rw [readComparison, hr, error_bind], hcause⟩

end Misread

/-! ## Refusals for depth -/

/-- Behind the parenthesis that the tokens begin with, the larger limit lets a condition be read,
and the limit does not. The refusal is the one of reading the parenthesis as that of a term. -/
structure Regrouped (limit larger : Option Nat) (ts : List Located) (r : Refusal) : Prop where
  group : ∃ depth p behind found, ts = ⟨.mark .lparen, p⟩ :: behind ∧
    grouped? (nested larger depth (readCondition larger)) behind = some found ∧
    grouped? (nested limit depth (readCondition limit)) behind = none ∧
    readComparison (readTerm larger depth) ts = .error r
  misread : Misread r.cause

/-- The limit refuses a level, or a parenthesis somewhere in the tokens is regrouped. -/
def Cut (limit larger : Option Nat) (ts : List Located) (r : Refusal) : Prop :=
  TooDeep limit r ∨ ∃ inner, inner <:+ ts ∧ Regrouped limit larger inner r

section Cut

variable {limit larger : Option Nat}

theorem Cut.of_suffix {ts rest : List Located} (h : rest <:+ ts) {r : Refusal}
    (hr : Cut limit larger rest r) : Cut limit larger ts r := by
  rcases hr with hdeep | ⟨inner, hinner, hregrouped⟩
  · exact .inl hdeep
  · exact .inr ⟨inner, hinner.trans h, hregrouped⟩

theorem Limited.of_suffix {x y : Except Refusal α} {ts rest : List Located}
    (h : Limited (Cut limit larger rest) x y) (hrest : rest <:+ ts) :
    Limited (Cut limit larger ts) x y :=
  h.mono fun _ => Cut.of_suffix hrest

/-- Under the limit, the reader reads what the other one reads, or is cut. -/
def Cuts (limit larger : Option Nat) (reader other : Reader α) : Prop :=
  ∀ ts, Limited (Cut limit larger ts) (reader ts) (other ts)

/-- What is read behind the tokens that were taken is cut there. -/
theorem Limited.and_then {x y : Except Refusal (α × List Located)}
    {f g : α × List Located → Except Refusal β} {ts : List Located}
    (h : Limited (Cut limit larger ts) x y)
    (hn : ∀ a rest, y = .ok (a, rest) →
      rest <:+ ts ∧ Limited (Cut limit larger rest) (f (a, rest)) (g (a, rest))) :
    Limited (Cut limit larger ts) (x >>= f) (y >>= g) := by
  refine h.bind fun ⟨a, rest⟩ hy => ?_
  obtain ⟨hrest, hnext⟩ := hn a rest hy
  exact hnext.of_suffix hrest

section Chain

variable {operand other : Reader α} {op : Token → Option (α → α → α)} {most : Nat}

theorem limited_chainFrom (ho : Advances other)
    (h : ∀ ts : List Located, ts.length ≤ most →
      Limited (Cut limit larger ts) (operand ts) (other ts))
    {room : Nat} {left : α} {ts : List Located} (hts : ts.length ≤ most) :
    Limited (Cut limit larger ts) (chainFrom operand op room left ts)
      (chainFrom other op room left ts) := by
  induction room generalizing left ts with
  | zero => exact .refl _
  | succ room ih =>
    simp only [chainFrom]
    split
    · exact .refl _
    · have htail : ts.tail.length ≤ most := Nat.le_trans (List.tail_suffix ts).length_le hts
      have hfirst := (h ts.tail htail).of_suffix (List.tail_suffix ts)
      refine hfirst.and_then fun right rest hright => ?_
      have hbehind := ho _ _ _ hright
      exact ⟨hbehind.suffix.trans (List.tail_suffix ts),
        ih (Nat.le_trans (Nat.le_of_lt hbehind.shorter) htail)⟩

theorem limited_chain (ho : Advances other)
    (h : ∀ ts : List Located, ts.length ≤ most →
      Limited (Cut limit larger ts) (operand ts) (other ts))
    {ts : List Located} (hts : ts.length ≤ most) :
    Limited (Cut limit larger ts) (chain operand op ts) (chain other op ts) := by
  refine (h ts hts).and_then fun first rest hfirst => ?_
  have hbehind := ho _ _ _ hfirst
  exact ⟨hbehind.suffix,
    limited_chainFrom ho h (Nat.le_trans (Nat.le_of_lt hbehind.shorter) hts)⟩

theorem limited_readChoice {unary other : Reader (Condition String)} (ho : Advances other)
    (h : ∀ ts : List Located, ts.length ≤ most →
      Limited (Cut limit larger ts) (unary ts) (other ts))
    {ts : List Located} (hts : ts.length ≤ most) :
    Limited (Cut limit larger ts) (readChoice unary ts) (readChoice other ts) :=
  limited_chain ho.chain (fun _ => limited_chain ho h) hts

end Chain

/-! ## Conditions -/

section Condition

variable (hl : Allows larger limit)

include hl

theorem cuts_readComparison (depth : Nat) :
    Cuts limit larger (readComparison (readTerm limit depth))
      (readComparison (readTerm larger depth)) :=
  fun ts => .of_held (bounded_readComparison hl depth ts) fun _ => .inl

/-- A group that the limit cuts is read again as the term of a comparison, which it is not. -/
theorem limited_lparen {room depth : Nat} {p : Position} {behind : List Located}
    (hroom : behind.length < room)
    (hgroup : Limited (Cut limit larger behind)
      (nested limit depth (fun depth => readChoice (readUnaryAt limit room depth)) behind)
      (nested larger depth (fun depth => readChoice (readUnaryAt larger room depth)) behind)) :
    Limited (Cut limit larger (⟨.mark .lparen, p⟩ :: behind))
      (readUnaryAt limit (room + 1) depth (⟨.mark .lparen, p⟩ :: behind))
      (readUnaryAt larger (room + 1) depth (⟨.mark .lparen, p⟩ :: behind)) := by
  have hcomparison := cuts_readComparison hl depth (⟨.mark .lparen, p⟩ :: behind)
  have hkept {found : Condition String × List Located}
      (hfound : groupAt limit room depth behind = some found) :
      groupAt larger room depth behind = some found := by
    obtain ⟨q, hread⟩ := grouped?_eq_some hfound
    rw [groupAt, grouped?, hgroup.kept _ hread]
  simp only [readUnaryAt, readUnaryOver]
  split
  · next found hfound =>
    have hlarger := hkept hfound
    rw [groupAt] at hlarger
    rw [hlarger]
    exact .refl _
  · next hnone =>
    split
    · next found hfound =>
      obtain ⟨r, hr, hcause⟩ := readComparison_of_grouped (p := p) hfound
      have hbounded := bounded_readComparison hl depth (⟨.mark .lparen, p⟩ :: behind)
      rcases hbounded with heq | ⟨s, hs, hdeep⟩
      · refine .of_error (heq.trans hr) (.inr ⟨_, List.suffix_rfl, ?_, hcause⟩)
        refine ⟨depth, p, behind, found, rfl, ?_, ?_, hr⟩
        · exact (groupAt_eq larger hroom).symm.trans hfound
        · exact (groupAt_eq limit hroom).symm.trans hnone
      · exact .of_error hs (.inl hdeep)
    · exact hcomparison

/-- By induction on the room. -/
theorem limited_readUnaryAt {room depth : Nat} {ts : List Located} (hts : ts.length < room) :
    Limited (Cut limit larger ts) (readUnaryAt limit room depth ts)
      (readUnaryAt larger room depth ts) := by
  induction room generalizing depth ts with
  | zero => exact .refl _
  | succ room ih =>
    have hinner (others : List Located) (hothers : others.length < room) :
        Limited (Cut limit larger others) (readUnaryAt limit room (depth + 1) others)
          (readUnaryAt larger room (depth + 1) others) :=
      ih hothers
    unfold readUnaryAt readUnaryOver
    split
    · next rest =>
      have hrest : rest.length < room := Nat.lt_of_succ_lt_succ hts
      have hnegated := limited_nested hl (fun _ => .inl) (hinner rest hrest)
      exact (hnegated.of_suffix (List.suffix_cons _ _)).bind fun _ _ => .refl _
    · next p behind =>
      have hbehind : behind.length < room := Nat.lt_of_succ_lt_succ hts
      apply limited_lparen hl hbehind
      apply limited_nested hl fun _ => .inl
      exact limited_readChoice (advances_readUnaryAt larger room (depth + 1))
        (fun others hothers => hinner others (Nat.lt_of_le_of_lt hothers hbehind)) (Nat.le_refl _)
    · exact cuts_readComparison hl depth ts

theorem cuts_readCondition (depth : Nat) :
    Cuts limit larger (readCondition limit depth) (readCondition larger depth) :=
  fun ts => limited_readChoice (fun ts => advances_readUnaryAt larger (ts.length + 1) depth ts)
    (fun ts _ => limited_readUnaryAt hl (Nat.lt_succ_self ts.length)) (Nat.le_refl ts.length)

end Condition

/-! ## Rules -/

section Rule

variable {rule rule' : Reader (Rule String)} {rules rules' : Nat → Reader (Rule String)}
  {depth : Nat}

theorem cuts_readMembersFrom (ha : Advances rule') (h : Cuts limit larger rule rule')
    (room : Nat) :
    Cuts limit larger (readMembersFrom rule room) (readMembersFrom rule' room) := by
  intro ts
  induction room generalizing ts with
  | zero => exact .refl _
  | succ room ih =>
    simp only [readMembersFrom]
    split
    · next rest =>
      refine ((h rest).of_suffix (List.suffix_cons _ _)).and_then fun member after hm => ?_
      refine ⟨(ha _ _ _ hm).suffix.trans (List.suffix_cons _ _), ?_⟩
      exact (ih after).bind fun _ _ => .refl _
    · exact .refl _

theorem cuts_readMembers (ha : Advances rule') (h : Cuts limit larger rule rule') :
    Cuts limit larger (readMembers rule) (readMembers rule') := by
  intro ts
  refine (h ts).and_then fun member after hm => ?_
  exact ⟨(ha _ _ _ hm).suffix, (cuts_readMembersFrom ha h _ _).bind fun _ _ => .refl _⟩

variable (hl : Allows larger limit)

include hl

theorem cuts_readBlock (ha : Advances (rules' (depth + 1)))
    (h : Cuts limit larger (rules (depth + 1)) (rules' (depth + 1))) :
    Cuts limit larger (readBlock limit depth rules) (readBlock larger depth rules') := by
  intro ts
  refine (Limited.refl (expectMark .lbrace "'\x7b'" ts)).bind fun opened ho => ?_
  have hmembers : Limited (Cut limit larger opened)
      (nested limit depth (fun depth => readMembers (rules depth)) opened)
      (nested larger depth (fun depth => readMembers (rules' depth)) opened) :=
    limited_nested hl (fun _ => .inl) (cuts_readMembers ha h opened)
  have hopened := (behind_of_expectMark ho).suffix
  exact (hmembers.of_suffix hopened).bind fun _ _ => .refl _

theorem cuts_readBranch (ha : Advances (rules' depth))
    (h : Cuts limit larger (rules depth) (rules' depth)) :
    Cuts limit larger (readBranch limit rules depth) (readBranch larger rules' depth) := by
  intro ts
  refine (cuts_readCondition hl depth ts).and_then fun condition after hc => ?_
  refine ⟨(advances_readCondition larger depth _ _ _ hc).suffix, ?_⟩
  refine (h after).and_then fun onTrue last ht => ?_
  refine ⟨(ha _ _ _ ht).suffix, ?_⟩
  dsimp only
  split
  · next rest =>
    exact ((h rest).of_suffix (List.suffix_cons _ _)).bind fun _ _ => .refl _
  · exact .refl _

theorem cuts_readWhen (depth : Nat) :
    Cuts limit larger (readWhen limit depth) (readWhen larger depth) := by
  intro ts
  refine (Limited.refl (readDecision ts)).bind fun ⟨decision, after⟩ hd => ?_
  refine (Limited.refl (expectKeyword .when after)).bind fun next hn => ?_
  have hnext := (behind_of_expectKeyword hn).trans (advances_readDecision _ _ _ hd)
  exact ((cuts_readCondition hl depth next).of_suffix hnext.suffix).bind fun _ _ => .refl _

theorem cuts_readGroup (group : Decision → List (Rule String) → Rule String)
    (ha : Advances (rules' (depth + 1)))
    (h : Cuts limit larger (rules (depth + 1)) (rules' (depth + 1))) :
    Cuts limit larger (readGroup limit depth rules group)
      (readGroup larger depth rules' group) := by
  intro ts
  refine (Limited.refl (readDecision ts)).bind fun ⟨decision, after⟩ hd => ?_
  have hafter := (advances_readDecision _ _ _ hd).suffix
  exact ((cuts_readBlock hl ha h after).of_suffix hafter).bind fun _ _ => .refl _

theorem cuts_readRuleOver (ha : Advances (rules' (depth + 1)))
    (h : Cuts limit larger (rules (depth + 1)) (rules' (depth + 1))) :
    Cuts limit larger (readRuleOver limit rules depth) (readRuleOver larger rules' depth) := by
  intro ts
  have hbehind {t : Located} {rest : List Located}
      {x y : Except Refusal (Rule String × List Located)}
      (hxy : Limited (Cut limit larger rest) x y) : Limited (Cut limit larger (t :: rest)) x y :=
    hxy.of_suffix (List.suffix_cons _ _)
  unfold readRuleOver
  split
  · exact .refl _
  · exact .refl _
  · exact cuts_readWhen hl depth _
  · exact cuts_readWhen hl depth _
  · exact hbehind (limited_nested hl (fun _ => .inl) (cuts_readBranch hl ha h _))
  · exact hbehind (cuts_readGroup hl .majority ha h _)
  · exact hbehind (cuts_readGroup hl .all ha h _)
  · exact hbehind (cuts_readGroup hl .any ha h _)
  · exact hbehind ((cuts_readBlock hl ha h _).bind fun _ _ => .refl _)
  · exact .refl _

theorem cuts_readRuleAt (room depth : Nat) :
    Cuts limit larger (readRuleAt limit room depth) (readRuleAt larger room depth) := by
  intro ts
  induction room generalizing depth ts with
  | zero => exact .refl _
  | succ room ih =>
    exact cuts_readRuleOver hl (advances_readRuleAt larger room (depth + 1)) (ih (depth + 1)) ts

theorem cuts_readRule (depth : Nat) :
    Cuts limit larger (readRule limit depth) (readRule larger depth) :=
  fun ts => cuts_readRuleAt hl (ts.length + 1) depth ts

end Rule

/-! ## Rule sets -/

section RuleSet

variable (hl : Allows larger limit)

include hl

theorem cuts_readAttribute : Cuts limit larger (readAttribute limit) (readAttribute larger) := by
  intro ts
  refine (Limited.refl (readName ts)).bind fun ⟨name, after⟩ hn => ?_
  refine (Limited.refl (expectMark .eq "'='" after)).bind fun next he => ?_
  have hvalue : Limited (TooDeep limit) (readTerm limit 0 next) (readTerm larger 0 next) :=
    .of_held (bounded_readTerm hl 0 next) fun _ => id
  exact (hvalue.mono fun r => .inl).bind fun _ _ => .refl _

theorem cuts_readAttributes (room : Nat) :
    Cuts limit larger (readAttributes limit room) (readAttributes larger room) := by
  intro ts
  induction room generalizing ts with
  | zero => exact .refl _
  | succ room ih =>
    simp only [readAttributes]
    split
    · refine (cuts_readAttribute hl ts).and_then fun a after ha => ?_
      exact ⟨(advances_readAttribute larger _ _ _ ha).suffix, (ih after).bind fun _ _ => .refl _⟩
    · exact .refl _

theorem cuts_readRules (room : Nat) :
    Cuts limit larger (readRules limit room) (readRules larger room) := by
  intro ts
  induction room generalizing ts with
  | zero => exact .refl _
  | succ room ih =>
    simp only [readRules]
    split
    · exact .refl _
    · refine (cuts_readRule hl 0 ts).and_then fun rule after hr => ?_
      exact ⟨(advances_readRule larger 0 _ _ _ hr).suffix, (ih after).bind fun _ _ => .refl _⟩

theorem cuts_readRuleSet : Cuts limit larger (readRuleSet limit) (readRuleSet larger) := by
  intro ts
  refine (cuts_readAttributes hl _ ts).and_then fun attributes after ha => ?_
  refine ⟨leaves_readAttributes larger _ _ _ _ ha, ?_⟩
  exact (cuts_readRules hl _ after).bind fun _ _ => .refl _

end RuleSet

end Cut

theorem limited_readWhole {limit larger : Option Nat} {reader other : Reader α} {text : String}
    {tokens : List Located} (hscan : scan text = .ok tokens) (h : Cuts limit larger reader other) :
    Limited (Cut limit larger tokens) (readWhole reader text) (readWhole other text) := by
  simp only [readWhole, hscan, ok_bind]
  exact (h tokens).bind fun _ _ => .refl _

/-- A text that is accepted without a limit is accepted under it as well, or refused with a message
about its depth, unless a condition in parentheses is too deep. Then its parentheses are read again
as those of a term, and the refusal is the one of this reading. -/
theorem refused_for_depth {text : String} {set : RuleSet String}
    (h : readWhole (readRuleSet none) text = .ok set) :
    ruleSetOf text = .ok set ∨
      ∃ r, ruleSetOf text = .error r ∧
        (r.cause = .tooDeep 128 ∧ r.cause.message = "nesting too deep (more than 128 levels)" ∨
          ∃ tokens inner, scan text = .ok tokens ∧ inner <:+ tokens ∧
            Regrouped nestingLimit none inner r) := by
  obtain ⟨tokens, hscan, -⟩ := bind_ok_iff.mp h
  have hlimited := limited_readWhole hscan (cuts_readRuleSet (allows_none nestingLimit))
  rcases hlimited.refused set h with hok | ⟨r, hr, hdeep | ⟨inner, hinner, hregrouped⟩⟩
  · exact .inl hok
  · obtain ⟨most, hmost, hcause⟩ := hdeep
    cases hmost
    refine .inr ⟨r, hr, .inl ⟨hcause, ?_⟩⟩
    rw [hcause]
    decide
  · exact .inr ⟨r, hr, .inr ⟨tokens, inner, hscan, hinner, hregrouped⟩⟩

/-! ## Negations -/

def negated : Nat → Condition String
  | 0 => .equal (.attr "a") (.attr "a")
  | n + 1 => .not (negated n)

def negations (n : Nat) : List Char := (List.replicate n "not ".toList).flatten

def negatedText : List Char := "permit when ".toList ++ negations 129 ++ "a = a".toList

def groupedText : List Char := "permit when (".toList ++ negations 128 ++ "a = a)".toList

/-- Without parentheses, a negation too many is refused for its depth. -/
theorem negations_refused_for_depth :
    ∃ r, ruleSetOf (String.ofList negatedText) = .error r ∧ r.cause = .tooDeep 128 := by
  have haccepted : readWhole (readRuleSet none) (String.ofList negatedText) =
      .ok ⟨[], [.when (negated 129) .permit]⟩ := by
    unfold readWhole
    rewrite [scan_ofList]
    decide +kernel
  have hplain : (scan (String.ofList negatedText)).toOption.all
      (·.all fun t => t.token ≠ .mark .lparen) = true := by
    rewrite [scan_ofList]
    decide +kernel
  have hrefused : (ruleSetOf (String.ofList negatedText)).toOption.isSome = false := by
    unfold ruleSetOf readWhole
    rewrite [scan_ofList]
    decide +kernel
  rcases refused_for_depth haccepted with hok | ⟨r, hr, hcause | hregrouped⟩
  · rw [hok] at hrefused
    cases hrefused
  · exact ⟨r, hr, hcause.1⟩
  · obtain ⟨tokens, inner, hscan, hinner, hin⟩ := hregrouped
    obtain ⟨depth, p, behind, found, rfl, -⟩ := hin.group
    have hmem := hinner.subset List.mem_cons_self
    rw [hscan] at hplain
    exact absurd rfl (of_decide_eq_true (List.all_eq_true.mp hplain _ hmem))

/-- In parentheses, the same number of levels is refused for a word that is no name. -/
theorem negations_refused_in_parentheses :
    readWhole (readRuleSet none) (String.ofList groupedText) =
        .ok ⟨[], [.when (negated 128) .permit]⟩ ∧
      ruleSetOf (String.ofList groupedText) = .error ⟨⟨1, 14⟩, .reservedWord .not⟩ ∧
      (Cause.reservedWord .not).message =
        "'not' is a reserved word and cannot be used as a name" := by
  refine ⟨?_, ?_, by decide⟩
  · unfold readWhole
    rewrite [scan_ofList]
    decide +kernel
  · unfold ruleSetOf readWhole
    rewrite [scan_ofList]
    decide +kernel

end Policy.Source
