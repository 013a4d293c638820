import Policy.Proofs.Source.Local.Term
import Policy.Proofs.Source.Printed.Condition

namespace Policy.Source

theorem joining_conjunction : Joining conjunction? where
  separates t join h := by
    unfold conjunction? at h
    split at h
    · rfl
    · cases h
  closes t h := conjunction_of_joins (joins_of_closes h)

theorem joining_disjunction : Joining disjunction? where
  separates t join h := by
    unfold disjunction? at h
    split at h
    · rfl
    · cases h
  closes t h := disjunction_of_joins (joins_of_closes h)

theorem separates_of_comparison {t : Token} {compare : Term String → Term String → Condition String}
    (h : comparison? t = some compare) : t.separates = true := by
  unfold comparison? at h
  split at h
  · rfl
  · rfl
  · rfl
  · rfl
  · rfl
  · rfl
  · cases h

/-- Two terms with the sign between them. -/
theorem front_comparison {term : Reader (Term String)} {front back : List Token} {sign u : Token}
    {compare : Term String → Term String → Condition String} {left right : Term String}
    (hleft : Front (fun _ => term) front sign left) (hsign : comparison? sign = some compare)
    (hright : Front (fun _ => term) back u right) :
    Front (fun _ => readComparison term) (front ++ sign :: back) u (compare left right) where
  nonempty := List.append_ne_nil_of_left_ne_nil hleft.nonempty _
  solid := by
    have hne : sign ≠ .eof := by
      rintro rfl
      cases hsign
    simp [hleft.solid, hne.symm, hright.solid]
  reads := by
    intro room more hroom hmore
    simp only [List.length_append, List.length_cons] at hroom
    have hsame : Follows front sign (sign :: (back ++ more)) :=
      Follows.same rfl (separates_of_comparison hsign)
    have hbehind : Follows (sign :: back) u more := hmore.last front
    rw [List.append_assoc]
    exact reads_comparison (hleft.reads room _ (by omega) hsame) hsign
      (hright.reads room more (by omega) (hbehind.last [sign]))

theorem local_readComparison {term : Reader (Term String)} (h : Local term fun _ => term) :
    Local (readComparison term) fun _ => readComparison term := by
  intro located x rest hx
  obtain ⟨⟨left, middle⟩, hleft, hx⟩ := bind_ok_iff.mp hx
  obtain ⟨front, hfront, hf⟩ := h _ _ _ hleft
  dsimp only at hx hf hfront
  split at hx
  · cases hx
  · next compare hsign =>
    obtain ⟨⟨right, last⟩, hright, hx⟩ := bind_ok_iff.mp hx
    cases hx
    obtain ⟨back, hback, hb⟩ := h _ _ _ hright
    cases middle with
    | nil => cases hsign
    | cons sign behind =>
      refine ⟨front ++ sign.token :: back, ?_, front_comparison hf hsign hb⟩
      rw [hfront, List.map_cons, List.append_assoc]
      exact congrArg (front ++ sign.token :: ·) hback

section Unary

variable {limit : Option Nat} {depth : Nat}

theorem local_readChoice {unary : Reader (Condition String)}
    {again : Nat → Reader (Condition String)} (h : Local unary again) :
    Local (readChoice unary) fun room => readChoice (again room) :=
  (h.chain joining_conjunction).chain joining_disjunction

/-- A comparison read as a negation, group or comparison. -/
theorem exists_front_unary {located rest : List Located} {c : Condition String}
    (h : readComparison (readTerm limit depth) located = .ok (c, rest)) :
    ∃ front, located.map (·.token) = front ++ rest.map (·.token) ∧
      Front (fun room => readUnaryAt limit room depth) front (peek rest) c := by
  obtain ⟨front, hfront, hf⟩ := local_readComparison (local_readTerm limit depth) _ _ _ h
  refine ⟨front, hfront, hf.nonempty, hf.solid, fun room more hroom hmore => ?_⟩
  have hpos := List.length_pos_iff.mpr hf.nonempty
  obtain ⟨room, rfl⟩ : ∃ k, room = k + 1 := ⟨room - 1, by omega⟩
  exact reads_unary_of_comparison room (hf.reads _ more (Nat.le_refl _) hmore)

/-- By induction on the room, of which each level takes one. -/
theorem local_readUnaryAt (limit : Option Nat) (room depth : Nat) :
    Local (readUnaryAt limit room depth) fun room => readUnaryAt limit room depth := by
  induction room generalizing depth with
  | zero => exact Local.expected _ _
  | succ room ih =>
    have hgroups : Local (nested limit depth fun depth => readChoice (readUnaryAt limit room depth))
        fun room => nested limit depth fun depth => readChoice (readUnaryAt limit room depth) :=
      Local.nested (local_readChoice (ih (depth + 1)))
    intro located x rest hx
    rw [readUnaryAt] at hx
    unfold readUnaryOver at hx
    split at hx
    · obtain ⟨⟨c, middle⟩, hc, hx⟩ := bind_ok_iff.mp hx
      cases hx
      obtain ⟨front, hfront, hf⟩ := Local.nested (ih (depth + 1)) _ _ _ hc
      refine ⟨_, by rw [List.map_cons, hfront, List.cons_append], ?_⟩
      exact hf.behind Token.noConfusion fun room more hread => reads_not hread
    · split at hx
      · next found hfound =>
        cases hx
        unfold grouped? at hfound
        split at hfound
        · next hc =>
          cases hfound
          obtain ⟨front, hfront, hf⟩ := hgroups _ _ _ hc
          have hf : Front _ front (.mark .rparen) x := hf
          have hparens : Front (fun room => readUnaryAt limit room depth)
              (.mark .lparen :: (front ++ [.mark .rparen])) (peek rest) x := by
            refine hf.between Token.noConfusion rfl fun room more hread => ?_
            rw [← parens_append]
            exact reads_group hread
          refine ⟨_, ?_, hparens⟩
          rw [List.map_cons, hfront, List.cons_append, List.append_assoc]
          rfl
        · cases hfound
      · exact exists_front_unary hx
    · exact exists_front_unary hx

theorem local_readUnary (limit : Option Nat) (depth : Nat) :
    Local (readUnary limit depth) fun _ => readUnary limit depth :=
  Local.of_length fun room => local_readUnaryAt limit room depth

theorem local_readCondition (limit : Option Nat) (depth : Nat) :
    Local (readCondition limit depth) fun _ => readCondition limit depth :=
  local_readChoice (local_readUnary limit depth)

end Unary

end Policy.Source
