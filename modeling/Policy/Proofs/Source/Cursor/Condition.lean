import Policy.Proofs.Source.Cursor.Term

namespace Policy.Source

namespace Walk

variable (tokens : List Located) (limit : Option Nat)

def comparison (term : Walk (Term String)) : Walk (Condition String) := do
  let left ← term
  match comparison? (← ahead tokens 0) with
  | none => expected tokens "comparison operator"
  | some compare => do
    advance tokens
    let right ← term
    pure (compare left right)

/-- Goes back to a place among the tokens, with empty hands. -/
def back {α : Type} (pos : Nat) : Walk (Option α) := do
  modify fun c => { c with pos := pos }
  pure none

/-- Takes the parenthesis behind what was found. Where there is none or nothing was found, it goes
back to `pos`. -/
def closeFrom (pos : Nat) : Except Refusal (Condition String) → Walk (Option (Condition String))
  | .ok found => do
    if (← ahead tokens 0) = .mark .rparen then do
      advance tokens
      pure (some found)
    else back pos
  | .error _ => back pos

/-- Takes what stands between the parenthesis here and its partner, and goes back to the one here
if that is not what `group` takes. -/
def attempt (group : Walk (Condition String)) : Walk (Option (Condition String)) := do
  let start ← get
  advance tokens
  let found ← outcome group
  closeFrom tokens start.pos found

/-- A negation, a group or a comparison. At an opening parenthesis the group is tried first. -/
def unaryOver (negated group : Walk (Condition String)) (term : Walk (Term String)) :
    Walk (Condition String) := do
  match ← ahead tokens 0 with
  | .keyword .not => do
    advance tokens
    let c ← negated
    pure (.not c)
  | .mark .lparen => do
    match ← attempt tokens group with
    | some found => pure found
    | none => comparison tokens term
  | _ => comparison tokens term

def conjunctions (fuel : Nat) (unary : Walk (Condition String)) : Walk (Condition String) :=
  joined tokens fuel unary conjunction?

def choice (fuel : Nat) (unary : Walk (Condition String)) : Walk (Condition String) :=
  joined tokens fuel (conjunctions tokens fuel unary) disjunction?

def unary : (fuel : Nat) → Walk (Condition String)
  | 0 => stuck .endless
  | fuel + 1 =>
    unaryOver tokens (nested tokens limit (unary fuel))
      (nested tokens limit (choice tokens fuel (unary fuel))) (term tokens limit (fuel + 1))

def condition (fuel : Nat) : Walk (Condition String) :=
  choice tokens fuel (unary tokens limit fuel)

variable {tokens limit} {low depth fuel pos : Nat}

/-- How an attempt at a group ends. One that finds nothing leaves the cursor where it found it. -/
inductive Attempted (tokens : List Located) (c : Cursor)
    (run : Except Stuck (Except Refusal (Option (Condition String)) × Cursor))
    (reading : Option (Condition String × List Located)) : Prop
  | found (x : Condition String) (pos : Nat) (hrun : run = .ok (.ok (some x), ⟨pos, c.depth⟩))
    (hreading : reading = some (x, tokens.drop pos)) (hleast : c.pos < pos)
    (hpos : pos < tokens.length)
  | resumed (hrun : run = .ok (.ok none, c)) (hreading : reading = none)

section

variable (hended : Ended tokens)
include hended

theorem tracks_comparison {term : Walk (Term String)} {reader : Reader (Term String)}
    (ht : Tracks tokens low depth term reader) :
    Tracks tokens low depth (comparison tokens term) (readComparison reader) := by
  intro pos hlow hpos
  refine (ht pos hlow hpos).bind fun left after hafter hin => ?_
  obtain ⟨t, p, hdrop⟩ := exists_drop_eq_cons hin
  dsimp only
  rw [run_peek_bind hdrop, peek_of_drop hdrop]
  cases hcompare : comparison? t with
  | none => exact arrives_expected hin _
  | some compare =>
    have hne : t ≠ .eof := by
      rintro rfl
      cases hcompare
    have hlt := hended.succ_lt hdrop hne
    refine .advance hlt ?_
    rw [List.tail_drop]
    exact (ht (after + 1) (by omega) hlt).map (by omega)

section Unary

variable {negated group : Walk (Condition String)} {term : Walk (Term String)}
  {readNegated readGroup : Reader (Condition String)} {reader : Reader (Term String)}

theorem attempted (hg : Tracks tokens (low + 1) depth group readGroup) (hlow : low ≤ pos)
    {p : Position} (hdrop : tokens.drop pos = ⟨.mark .lparen, p⟩ :: tokens.drop (pos + 1)) :
    Attempted tokens ⟨pos, depth⟩ ((attempt tokens group).run.run ⟨pos, depth⟩)
      (grouped? readGroup (tokens.drop (pos + 1))) := by
  have hlt := hended.succ_lt hdrop (by simp)
  have hstart : (attempt tokens group).run.run ⟨pos, depth⟩ =
      (outcome group >>= closeFrom tokens pos).run.run ⟨pos + 1, depth⟩ := run_advance_bind hlt
  rw [hstart]
  cases hg (pos + 1) (by omega) hlt with
  | refused r after hrun hreading hin =>
    rw [run_bind_of_ok (run_outcome hrun)]
    exact .resumed rfl (by rw [grouped?, hreading])
  | found x after hrun hreading hafter hin =>
    obtain ⟨t, q, hclose⟩ := exists_drop_eq_cons hin
    rw [run_bind_of_ok (run_outcome hrun), closeFrom, run_peek_bind hclose]
    split
    · next hparen =>
      subst hparen
      have hlast := hended.succ_lt hclose (by simp)
      refine .found x (after + 1) (run_advance_bind hlast) ?_ (by dsimp only; omega) hlast
      rw [grouped?, hreading, hclose]
    · next hother =>
      refine .resumed rfl ?_
      rw [grouped?, hreading, hclose]
      split
      · next heq =>
        cases heq
        exact absurd rfl hother
      · rfl

theorem tracks_unaryOver (hn : Tracks tokens (low + 1) depth negated readNegated)
    (hg : Tracks tokens (low + 1) depth group readGroup)
    (ht : Tracks tokens low depth term reader) :
    Tracks tokens low depth (unaryOver tokens negated group term)
      (readUnaryOver readNegated readGroup reader) := by
  intro pos hlow hpos
  obtain ⟨t, p, hdrop⟩ := exists_drop_eq_cons hpos
  have hcomparison := tracks_comparison hended ht pos hlow hpos
  unfold unaryOver
  rw [run_peek_bind hdrop]
  rw [hdrop] at hcomparison ⊢
  cases t with
  | keyword k =>
    cases k with
    | not =>
      have hlt := hended.succ_lt hdrop (by simp)
      exact .advance hlt ((hn (pos + 1) (by omega) hlt).map (by omega))
    | _ => exact hcomparison
  | mark m =>
    cases m with
    | lparen =>
      dsimp only
      cases attempted hended hg hlow hdrop with
      | found x after hrun hreading hafter hin =>
        rw [run_bind_of_ok hrun]
        simp only [readUnaryOver, hreading]
        exact .pure x hafter hin
      | resumed hrun hreading =>
        rw [run_bind_of_ok hrun]
        simp only [readUnaryOver, hreading]
        exact hcomparison
    | _ => exact hcomparison
  | _ => exact hcomparison

end Unary

theorem tracks_conjunctions {unary : Walk (Condition String)} {reader : Reader (Condition String)}
    (hu : Tracks tokens low depth unary reader) (hfuel : tokens.length ≤ fuel + low) :
    Tracks tokens low depth (conjunctions tokens fuel unary) (chain reader conjunction?) :=
  .joined hended rfl hu hfuel

theorem tracks_choice {unary : Walk (Condition String)} {reader : Reader (Condition String)}
    (hu : Tracks tokens low depth unary reader) (hfuel : tokens.length ≤ fuel + low) :
    Tracks tokens low depth (choice tokens fuel unary) (readChoice reader) :=
  .joined hended rfl (tracks_conjunctions hended hu hfuel) hfuel

/-- By induction on the fuel, of which each level takes one. -/
theorem tracks_unaryAt {room : Nat} (hfuel : tokens.length ≤ fuel + low)
    (hroom : tokens.length ≤ room + low) :
    Tracks tokens low depth (unary tokens limit fuel) (readUnaryAt limit room depth) := by
  induction fuel generalizing room low depth with
  | zero => exact fun pos hlow hpos => absurd hpos (by omega)
  | succ fuel ih =>
    cases room with
    | zero => exact fun pos hlow hpos => absurd hpos (by omega)
    | succ room =>
      have hinner (depth : Nat) :
          Tracks tokens (low + 1) depth (unary tokens limit fuel) (readUnaryAt limit room depth) :=
        ih (by omega) (by omega)
      exact tracks_unaryOver hended (.nested (hinner (depth + 1)))
        (.nested (tracks_choice hended (hinner (depth + 1)) (by omega)))
        (tracks_term hended hfuel)

theorem tracks_unary (hfuel : tokens.length ≤ fuel + low) :
    Tracks tokens low depth (unary tokens limit fuel) (readUnary limit depth) :=
  .of_room fun _ _ hlow hroom => tracks_unaryAt hended (by omega) hroom

theorem tracks_condition (hfuel : tokens.length ≤ fuel + low) :
    Tracks tokens low depth (condition tokens limit fuel) (readCondition limit depth) :=
  tracks_choice hended (tracks_unary hended hfuel) hfuel

end

end Walk

end Policy.Source
