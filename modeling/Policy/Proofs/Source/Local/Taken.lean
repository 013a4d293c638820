import Policy.Proofs.Source.Local.Term

namespace Policy

/-- How many names are written for a term. -/
def Term.nameCount {α : Type} : Term α → Nat
  | .string _ | .number _ | .request _ => 0
  | .attr _ => 1
  | .coerce operand _ => operand.nameCount
  | .binary _ lhs rhs => lhs.nameCount + rhs.nameCount
  | .rest _ _ params => 2 * params.length

namespace Source

variable {α : Type}

/-! ## What readers of terms take

Tokens that were taken have as many names as the term that was read from them. A call at their end
took all parameters that it could. -/

/-- Tokens of a text that are no name and that no call starts with. -/
def Token.leads : Token → Bool
  | .name _ | .keyword (.method _) | .eof => false
  | _ => true

/-- Tokens that were taken in front of others, with so many names. -/
structure Taken (front more : List Token) (n : Nat) : Prop where
  nonempty : front ≠ []
  names : front.countP Token.isName = n
  call : endsInCall front = true → startsParameter more = false

/-- The reader takes tokens for what it reads. -/
def Takes (reader : Reader α) (count : α → Nat) : Prop :=
  ∀ located x rest, reader located = .ok (x, rest) →
    ∃ front, located.map (·.token) = front ++ rest.map (·.token) ∧
      Taken front (rest.map (·.token)) (count x)

/-- Fronts with equally many of some tokens are the same where such a token stands behind each. -/
theorem front_eq_of_countP {p : Token → Bool} {front other more others : List Token} {t u : Token}
    (h : front ++ t :: more = other ++ u :: others) (ht : p t = true) (hu : p u = true)
    (hcount : front.countP p = other.countP p) : front = other := by
  rcases List.append_eq_append_iff.mp h with ⟨between, rfl, hbehind⟩ | ⟨between, rfl, hbehind⟩
  · cases between with
    | nil => exact (List.append_nil front).symm
    | cons v between =>
      cases hbehind
      rw [List.countP_append, List.countP_cons_of_pos ht] at hcount
      omega
  · cases between with
    | nil => exact List.append_nil other
    | cons v between =>
      cases hbehind
      rw [List.countP_append, List.countP_cons_of_pos hu] at hcount
      omega

theorem endsInCall_concat {u : Token} (hu : ∀ text, u ≠ .str text) (front : List Token) :
    endsInCall (front ++ [u]) = false := by
  unfold endsInCall
  rw [List.reverse_append, List.reverse_singleton, List.singleton_append]
  split
  · next heq => exact absurd (List.cons.inj heq).1 (hu _)
  · rfl

/-- A call at the end stands behind a token that no call starts with. -/
theorem endsInCall_of_append {u : Token} (hu : u.leads = true) (before : List Token)
    {back : List Token} (hback : back ≠ []) (h : endsInCall (before ++ u :: back) = true) :
    endsInCall back = true := by
  obtain ⟨t, ts, hts⟩ := List.exists_cons_of_ne_nil (mt List.reverse_eq_nil_iff.mp hback)
  unfold endsInCall at h ⊢
  rw [List.reverse_append, List.reverse_cons, hts] at h
  rw [hts]
  cases ts with
  | nil =>
    rw [List.append_assoc] at h
    split at h
    · next heq =>
      cases heq
      cases hu
    · cases h
  | cons t' ts =>
    split at h
    · next heq =>
      cases heq
      rfl
    · cases h

namespace Taken

variable {front back more : List Token} {m n : Nat} {u : Token}

theorem isName_of_leads (hu : u.leads = true) : u.isName = false := by
  cases u with
  | name text => cases hu
  | _ => rfl

/-- A token that leads from some tokens to others. -/
theorem join (hfront : front.countP Token.isName = m) (hu : u.leads = true)
    (hback : Taken back more n) : Taken (front ++ u :: back) more (m + n) where
  nonempty := List.append_ne_nil_of_right_ne_nil _ (List.cons_ne_nil _ _)
  names := by
    rw [List.countP_append, List.countP_cons, hfront, hback.names, isName_of_leads hu]
    rfl
  call h := hback.call (endsInCall_of_append hu front hback.nonempty h)

theorem behind (hu : u.leads = true) (h : Taken back more n) : Taken (u :: back) more n := by
  have hjoin : Taken ([] ++ u :: back) more (0 + n) := join rfl hu h
  rw [Nat.zero_add] at hjoin
  exact hjoin

/-- Between two tokens, the second of which no call ends with. -/
theorem between {close : Token} (hu : u.leads = true) (hclose : close.leads = true)
    (htext : ∀ text, close ≠ .str text) (h : front.countP Token.isName = n) :
    Taken (u :: (front ++ [close])) more n where
  nonempty := List.cons_ne_nil _ _
  names := by
    simp [isName_of_leads hu, isName_of_leads hclose, h]
  call hcall := by
    have hno := endsInCall_concat htext (u :: front)
    rw [List.cons_append, hcall] at hno
    cases hno

end Taken

theorem Takes.nested {limit : Option Nat} {depth : Nat} {inner : Nat → Reader α}
    {count : α → Nat} (h : Takes (inner (depth + 1)) count) :
    Takes (Source.nested limit depth inner) count := by
  intro located x rest hx
  rw [nested_of_ok hx inner] at hx
  exact h located x rest hx

section Chain

variable {operand : Reader α} {op : Token → Option (α → α → α)} {count : α → Nat}

/-- By induction on the room, with all that stands in front of the operators. -/
theorem taken_chainFrom (ho : Takes operand count)
    (hop : ∀ t join, op t = some join → t.leads = true ∧ ∀ a b, count (join a b) = count a + count b)
    {room : Nat} {left x : α} {located rest : List Located} {front : List Token}
    (hfront : Taken front (located.map (·.token)) (count left))
    (h : chainFrom operand op room left located = .ok (x, rest)) :
    ∃ tail, located.map (·.token) = tail ++ rest.map (·.token) ∧
      Taken (front ++ tail) (rest.map (·.token)) (count x) := by
  induction room generalizing front left located with
  | zero =>
    cases h
    exact ⟨[], rfl, (List.append_nil front).symm ▸ hfront⟩
  | succ room ih =>
    simp only [chainFrom] at h
    split at h
    · cases h
      exact ⟨[], rfl, (List.append_nil front).symm ▸ hfront⟩
    · next join hjoin =>
      obtain ⟨hleads, hcount⟩ := hop _ _ hjoin
      cases located with
      | nil => exact absurd hleads Bool.false_ne_true
      | cons t located =>
        obtain ⟨⟨right, middle⟩, hright, h⟩ := bind_ok_iff.mp h
        obtain ⟨back, hback, hb⟩ := ho _ _ _ hright
        have hback : located.map (·.token) = back ++ middle.map (·.token) := hback
        have hjoined : Taken (front ++ t.token :: back) (middle.map (·.token))
            (count (join left right)) := by
          rw [hcount]
          exact Taken.join hfront.names hleads hb
        obtain ⟨tail, htail, ht⟩ := ih hjoined h
        refine ⟨t.token :: (back ++ tail), ?_, ?_⟩
        · rw [List.map_cons, hback, htail, List.cons_append, List.append_assoc]
        · rw [List.append_assoc, List.cons_append] at ht
          exact ht

theorem Takes.chain (ho : Takes operand count)
    (hop : ∀ t join, op t = some join → t.leads = true ∧ ∀ a b, count (join a b) = count a + count b) :
    Takes (Source.chain operand op) count := by
  intro located x rest h
  obtain ⟨⟨first, middle⟩, hfirst, h⟩ := bind_ok_iff.mp h
  obtain ⟨front, hfront, hf⟩ := ho _ _ _ hfirst
  obtain ⟨tail, htail, ht⟩ := taken_chainFrom ho hop hf h
  exact ⟨front ++ tail, by rw [hfront, htail, List.append_assoc], ht⟩

end Chain

section Term

variable {inner : Reader (Term String)}

theorem takes_readCall (method : Method) {located rest : List Located} {x : Term String}
    (h : readCall method located = .ok (x, rest)) :
    ∃ front, located.map (·.token) = front ++ rest.map (·.token) ∧
      Taken (.keyword (.method method) :: front) (rest.map (·.token)) x.nameCount := by
  obtain ⟨⟨url, middle⟩, hurl, h⟩ := bind_ok_iff.mp h
  obtain ⟨⟨params, last⟩, hparams, h⟩ := bind_ok_iff.mp h
  cases h
  unfold readString at hurl
  split at hurl
  · cases hurl
    obtain ⟨front, hfront, hf, hall⟩ := exists_front_readParameters (Nat.le_refl _) hparams
    refine ⟨.str url :: front, by rw [List.map_cons, hfront]; rfl, List.cons_ne_nil _ _, ?_, ?_⟩
    · have hnames := hf.names
      simpa [Token.isName, Term.nameCount] using hnames
    · intro hcall
      rcases List.eq_nil_or_concat front with rfl | ⟨before, t, rfl⟩
      · cases hstarts : startsParameter (middle.map (·.token)) with
        | true => exact absurd rfl (hall hstarts)
        | false =>
          rw [hfront] at hstarts
          exact hstarts
      · have hlast : ∀ text, t ≠ .str text := by
          rintro text rfl
          exact hf.noText text (by simp)
        have hno := endsInCall_concat hlast (.keyword (.method method) :: .str url :: before)
        rw [List.concat_eq_append] at hcall
        cases hcall.symm.trans hno
  · cases hurl

/-- What stands in an atom takes one of the room less than the atom itself. -/
theorem takes_readAtom (h : Takes inner Term.nameCount) :
    Takes (readAtom inner) Term.nameCount := by
  intro located x rest hx
  unfold readAtom at hx
  split at hx
  · cases hx
    exact ⟨[_], rfl, List.cons_ne_nil _ _, rfl, fun h => absurd h Bool.false_ne_true⟩
  · cases hx
    exact ⟨[_], rfl, List.cons_ne_nil _ _, rfl, fun h => absurd h Bool.false_ne_true⟩
  · cases hx
    exact ⟨[_], rfl, List.cons_ne_nil _ _, rfl, fun h => absurd h Bool.false_ne_true⟩
  · obtain ⟨⟨t, middle⟩, ht, hx⟩ := bind_ok_iff.mp hx
    obtain ⟨last, hlast, hx⟩ := bind_ok_iff.mp hx
    cases hx
    obtain ⟨p, rfl⟩ := exists_of_expectMark hlast
    obtain ⟨front, hfront, hf⟩ := h _ _ _ ht
    have hparens : Taken (.mark .lparen :: (front ++ [.mark .rparen])) (rest.map (·.token)) _ :=
      Taken.between rfl rfl (fun _ => Token.noConfusion) hf.names
    refine ⟨_, ?_, hparens⟩
    rw [List.map_cons, hfront, List.cons_append, List.append_assoc]
    rfl
  · obtain ⟨⟨t, middle⟩, ht, hx⟩ := bind_ok_iff.mp hx
    cases hx
    obtain ⟨front, hfront, hf⟩ := h _ _ _ ht
    exact ⟨_, by rw [List.map_cons, hfront, List.cons_append], hf.behind rfl⟩
  · obtain ⟨⟨t, middle⟩, ht, hx⟩ := bind_ok_iff.mp hx
    cases hx
    obtain ⟨front, hfront, hf⟩ := h _ _ _ ht
    exact ⟨_, by rw [List.map_cons, hfront, List.cons_append], hf.behind rfl⟩
  · obtain ⟨⟨key, middle⟩, hkey, hx⟩ := bind_ok_iff.mp hx
    cases hx
    unfold readString at hkey
    split at hkey
    · cases hkey
      exact ⟨[_, _], rfl, List.cons_ne_nil _ _, rfl, fun h => absurd h Bool.false_ne_true⟩
    · cases hkey
  · obtain ⟨front, hfront, hf⟩ := takes_readCall _ hx
    exact ⟨_, by rw [List.map_cons, hfront, List.cons_append], hf⟩
  · cases hx
  · cases hx

theorem takes_readSum (h : Takes inner Term.nameCount) :
    Takes (readSum inner) Term.nameCount := by
  refine ((takes_readAtom h).chain ?_).chain ?_
  · intro t join hjoin
    unfold factorSign? at hjoin
    split at hjoin
    all_goals cases hjoin
    · exact ⟨rfl, fun _ _ => rfl⟩
    · exact ⟨rfl, fun _ _ => rfl⟩
  · intro t join hjoin
    unfold addendSign? at hjoin
    split at hjoin
    all_goals cases hjoin
    · exact ⟨rfl, fun _ _ => rfl⟩
    · exact ⟨rfl, fun _ _ => rfl⟩

theorem takes_readTermOver (h : Takes inner Term.nameCount) :
    Takes (readTermOver inner) Term.nameCount := by
  intro located x rest hx
  obtain ⟨⟨subject, middle⟩, hsubject, hx⟩ := bind_ok_iff.mp hx
  obtain ⟨front, hfront, hf⟩ := takes_readSum h _ _ _ hsubject
  dsimp only at hx
  split at hx
  · next p behind =>
    obtain ⟨⟨pattern, last⟩, hpattern, hx⟩ := bind_ok_iff.mp hx
    cases hx
    obtain ⟨back, hback, hb⟩ := takes_readSum h _ _ _ hpattern
    refine ⟨front ++ .keyword .matching :: back, ?_, Taken.join hf.names rfl hb⟩
    rw [hfront, List.map_cons, hback, List.append_assoc]
    rfl
  · cases hx
    exact ⟨front, hfront, hf⟩

/-- By induction on the room, of which each level takes one. -/
theorem takes_readTermAt (limit : Option Nat) (room depth : Nat) :
    Takes (readTermAt limit room depth) Term.nameCount := by
  induction room generalizing depth with
  | zero =>
    intro located x rest hx
    cases hx
  | succ room ih => exact takes_readTermOver (ih (depth + 1)).nested

theorem takes_readTerm (limit : Option Nat) (depth : Nat) :
    Takes (readTerm limit depth) Term.nameCount :=
  fun located => takes_readTermAt limit (located.length + 1) depth located

/-- The name and the sign of an attribute are taken in front of its value. -/
theorem takes_readAttribute (limit : Option Nat) :
    Takes (readAttribute limit) fun a => a.value.nameCount + 1 := by
  intro located a rest h
  obtain ⟨⟨name, behind⟩, hname, h⟩ := bind_ok_iff.mp h
  obtain ⟨opened, hopened, h⟩ := bind_ok_iff.mp h
  obtain ⟨⟨value, last⟩, hvalue, h⟩ := bind_ok_iff.mp h
  cases h
  obtain ⟨p, rfl⟩ := exists_of_expectMark hopened
  obtain ⟨front, hfront, hf⟩ := takes_readTerm _ _ _ _ _ hvalue
  unfold readName at hname
  split at hname
  · cases hname
    refine ⟨.name name :: .mark .eq :: front, ?_, List.cons_ne_nil _ _, ?_, fun hcall => ?_⟩
    · rw [List.map_cons, List.map_cons, hfront]
      rfl
    · rw [List.countP_cons, List.countP_cons, hf.names]
      rfl
    · exact hf.call (endsInCall_of_append rfl [.name name] hf.nonempty hcall)
  · cases hname
  · cases hname

end Term

end Source

end Policy
