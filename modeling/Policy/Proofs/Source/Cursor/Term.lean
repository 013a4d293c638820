import Policy.Proofs.Source.Cursor.Walk

namespace Policy.Source

namespace Walk

variable (tokens : List Located) (limit : Option Nat)

/-- Whether a parameter starts this number of places ahead. -/
def atParameter (offset : Nat) : Walk Bool := do
  let name ← ahead tokens offset
  let sign ← ahead tokens (offset + 1)
  let ref ← ahead tokens (offset + 2)
  pure (name.isName && sign = .mark .eq && ref.isName)

/-- Whether a comma stands here with another parameter behind it. -/
def continues : Walk Bool := do
  if (← ahead tokens 0) = .mark .comma then atParameter tokens 1 else pure false

/-- Takes parameters, the first of which starts here. -/
def parametersFrom : (fuel : Nat) → (seen : List String) → Walk (List (String × String))
  | 0, _ => stuck .endless
  | fuel + 1, seen => do
    let name ← takeName tokens
    if seen.contains name then refuse tokens (.repeatedParameter name)
    else do
      expect tokens (.mark .eq) "'='"
      let ref ← takeName tokens
      if ← continues tokens then do
        advance tokens
        let params ← parametersFrom fuel (name :: seen)
        pure ((name, ref) :: params)
      else pure [(name, ref)]

def parameters (fuel : Nat) : Walk (List (String × String)) := do
  if ← atParameter tokens 0 then parametersFrom tokens fuel [] else pure []

/-- Takes what stands behind the word for the method. -/
def call (fuel : Nat) (method : Method) : Walk (Term String) := do
  let url ← takeString tokens
  let params ← parameters tokens fuel
  pure (.rest url method params)

/-- A term without operators, where `inner` takes a term one level deeper. -/
def atom (fuel : Nat) (inner : Walk (Term String)) : Walk (Term String) := do
  match ← ahead tokens 0 with
  | .str text => do
    advance tokens
    pure (.string text)
  | .int n => do
    advance tokens
    pure (.number n)
  | .mark .lparen => do
    advance tokens
    let t ← inner
    expect tokens (.mark .rparen) "')'"
    pure t
  | .keyword .string => do
    advance tokens
    let t ← inner
    pure (.coerce t .string)
  | .keyword .number => do
    advance tokens
    let t ← inner
    pure (.coerce t .number)
  | .keyword .request => do
    advance tokens
    let key ← takeString tokens
    pure (.request key)
  | .keyword (.method method) => do
    advance tokens
    call tokens fuel method
  | .keyword _ | .name _ => do
    let name ← takeName tokens
    pure (.attr name)
  | _ => expected tokens "term"

def product (fuel : Nat) (inner : Walk (Term String)) : Walk (Term String) :=
  joined tokens fuel (atom tokens fuel inner) factorSign?

def sum (fuel : Nat) (inner : Walk (Term String)) : Walk (Term String) :=
  joined tokens fuel (product tokens fuel inner) addendSign?

def termOver (fuel : Nat) (inner : Walk (Term String)) : Walk (Term String) := do
  let subject ← sum tokens fuel inner
  if (← ahead tokens 0) = .keyword .matching then do
    advance tokens
    let pattern ← sum tokens fuel inner
    pure (.binary .regex subject pattern)
  else pure subject

def term : (fuel : Nat) → Walk (Term String)
  | 0 => stuck .endless
  | fuel + 1 => termOver tokens (fuel + 1) (nested tokens limit (term fuel))

variable {tokens limit} {low depth fuel pos : Nat}

/-! ## Parameters -/

theorem exists_of_isName {t : Token} (h : t.isName = true) : ∃ text, t = .name text := by
  cases t with
  | name text => exact ⟨text, rfl⟩
  | _ => cases h

theorem isSome_parameter (ts : List Located) :
    (parameter? ts).isSome = ((Source.peek ts).isName &&
      Source.peek (ts.drop 1) = .mark .eq && (Source.peek (ts.drop 2)).isName) := by
  rw [Bool.eq_iff_iff]
  simp only [Bool.and_eq_true, decide_eq_true_eq]
  constructor
  · intro h
    obtain ⟨⟨name, p, ref, rest⟩, hsome⟩ := Option.isSome_iff_exists.mp h
    unfold parameter? at hsome
    split at hsome
    · exact ⟨⟨rfl, rfl⟩, rfl⟩
    · cases hsome
  · rintro ⟨⟨hname, hsign⟩, href⟩
    match ts with
    | [] => cases hname
    | [_] => cases hsign
    | [_, _] => cases href
    | ⟨t, _⟩ :: ⟨sign, _⟩ :: ⟨u, _⟩ :: rest =>
      obtain ⟨name, rfl⟩ := exists_of_isName hname
      obtain ⟨ref, rfl⟩ := exists_of_isName href
      obtain rfl : sign = .mark .eq := hsign
      rfl

/-- The tokens of a parameter, one behind the other. -/
theorem drop_of_parameter {name ref : String} {p : Position} {rest : List Located}
    (h : parameter? (tokens.drop pos) = some (name, p, ref, rest)) :
    (∃ q, tokens.drop pos = ⟨.name name, q⟩ :: tokens.drop (pos + 1)) ∧
      tokens.drop (pos + 1) = ⟨.mark .eq, p⟩ :: tokens.drop (pos + 2) ∧
      (∃ q, tokens.drop (pos + 2) = ⟨.name ref, q⟩ :: tokens.drop (pos + 3)) ∧
      rest = tokens.drop (pos + 3) := by
  unfold parameter? at h
  split at h
  · next name q p ref r rest hdrop =>
    cases h
    have h₁ : tokens.drop (pos + 1) = ⟨.mark .eq, p⟩ :: ⟨.name ref, r⟩ :: rest := by
      rw [← List.tail_drop, hdrop, List.tail_cons]
    have h₂ : tokens.drop (pos + 2) = ⟨.name ref, r⟩ :: rest := by
      rw [← List.tail_drop, h₁, List.tail_cons]
    have h₃ : tokens.drop (pos + 3) = rest := by
      rw [← List.tail_drop, h₂, List.tail_cons]
    rw [h₃, h₂, h₁]
    exact ⟨⟨q, hdrop⟩, rfl, ⟨r, rfl⟩, rfl⟩
  · cases h

theorem lt_of_parameter (h : (parameter? (tokens.drop pos)).isSome) : pos < tokens.length := by
  obtain ⟨⟨name, p, ref, rest⟩, hp⟩ := Option.isSome_iff_exists.mp h
  obtain ⟨⟨q, hname⟩, -⟩ := drop_of_parameter hp
  exact lt_of_drop hname

section

variable (hended : Ended tokens)
include hended

theorem run_atParameter (offset : Nat) :
    (atParameter tokens offset).run.run ⟨pos, depth⟩ =
      .ok (.ok (parameter? (tokens.drop (pos + offset))).isSome, ⟨pos, depth⟩) := by
  unfold atParameter
  rw [run_ahead_bind hended, run_ahead_bind hended, run_ahead_bind hended, isSome_parameter,
    List.drop_drop, List.drop_drop, Nat.add_assoc, Nat.add_assoc]
  rfl

theorem run_continues :
    (continues tokens).run.run ⟨pos, depth⟩ =
      .ok (.ok (Source.peek (tokens.drop pos) = .mark .comma &&
        (parameter? (tokens.drop pos).tail).isSome), ⟨pos, depth⟩) := by
  unfold continues
  rw [run_ahead_bind hended, Nat.add_zero, List.tail_drop]
  split
  · next hcomma =>
    rw [run_atParameter hended, decide_eq_true hcomma, Bool.true_and]
  · next hother =>
    rw [decide_eq_false hother]
    rfl

/-- By induction on the fuel, of which each parameter takes one. -/
theorem arrives_parametersFrom {room : Nat} {seen : List String}
    (hstarts : (parameter? (tokens.drop pos)).isSome) (hfuel : tokens.length ≤ fuel + pos)
    (hroom : tokens.length ≤ room + pos) :
    Arrives tokens depth (pos + 1) ((parametersFrom tokens fuel seen).run.run ⟨pos, depth⟩)
      (readParameters room seen (tokens.drop pos)) := by
  induction fuel generalizing room seen pos with
  | zero => exact absurd (lt_of_parameter hstarts) (by omega)
  | succ fuel ih =>
    obtain ⟨⟨name, p, ref, rest⟩, hp⟩ := Option.isSome_iff_exists.mp hstarts
    obtain ⟨⟨q, hname⟩, hsign, ⟨r, href⟩, rfl⟩ := drop_of_parameter hp
    have h₁ := hended.succ_lt hname (by simp)
    have h₂ := hended.succ_lt hsign (by simp)
    have h₃ := hended.succ_lt href (by simp)
    obtain ⟨room, rfl⟩ : ∃ k, room = k + 1 := ⟨room - 1, by omega⟩
    simp only [parametersFrom, readParameters, hp]
    rw [run_bind_of_ok (run_takeName hname h₁)]
    split
    · exact .refused _ (pos + 1) (run_bind_of_ok (run_look_zero hsign)) rfl h₁
    · rw [run_bind_of_ok (run_expect hsign h₂), run_bind_of_ok (run_takeName href h₃),
        run_bind_of_ok (run_continues hended)]
      split
      · next hmore =>
        obtain ⟨hcomma, hagain⟩ := Bool.and_eq_true_iff.mp hmore
        rw [List.tail_drop] at hagain ⊢
        exact .advance (lt_of_parameter hagain) ((ih hagain (by omega) (by omega)).map (by omega))
      · exact .pure _ (by omega) h₃

theorem arrives_parameters {room : Nat} (hpos : pos < tokens.length)
    (hfuel : tokens.length ≤ fuel + pos) (hroom : tokens.length ≤ room + pos) :
    Arrives tokens depth pos ((parameters tokens fuel).run.run ⟨pos, depth⟩)
      (readParameters room [] (tokens.drop pos)) := by
  unfold parameters
  rw [run_bind_of_ok (run_atParameter hended 0), Nat.add_zero]
  split
  · next hstarts =>
    exact (arrives_parametersFrom hended hstarts hfuel hroom).mono (Nat.le_succ pos)
  · next hnone =>
    obtain ⟨room, rfl⟩ : ∃ k, room = k + 1 := ⟨room - 1, by omega⟩
    simp only [readParameters, Option.not_isSome_iff_eq_none.mp hnone]
    exact .pure [] (Nat.le_refl _) hpos

/-! ## Terms -/

theorem tracks_call (hfuel : tokens.length ≤ fuel + low) (method : Method) :
    Tracks tokens low depth (call tokens fuel method) (readCall method) := by
  intro pos hlow hpos
  refine (tracks_takeString hended low pos hlow hpos).bind fun url after hafter hin => ?_
  exact (arrives_parameters hended hin (by omega) (length_le_drop tokens after)).map hafter

section Inner

variable {inner : Walk (Term String)} {reader : Reader (Term String)}

theorem tracks_atom (hfuel : tokens.length ≤ fuel + low)
    (hi : Tracks tokens (low + 1) depth inner reader) :
    Tracks tokens low depth (atom tokens fuel inner) (readAtom reader) := by
  intro pos hlow hpos
  obtain ⟨t, p, ht⟩ := exists_drop_eq_cons hpos
  unfold atom
  rw [run_peek_bind ht, ht]
  cases t with
  | str text => exact arrives_advance hended ht (by simp)
  | int n => exact arrives_advance hended ht (by simp)
  | name text =>
    have hlt := hended.succ_lt ht (by simp)
    dsimp only
    rw [run_bind_of_ok (run_takeName ht hlt)]
    exact .pure _ (Nat.le_refl _) hlt
  | mark m =>
    have hlt := hended.succ_lt ht (by simp)
    cases m with
    | lparen =>
      refine .advance hlt ((hi (pos + 1) (by omega) hlt).bind fun t after hafter hin => ?_)
      exact arrives_mark hended hin fun hlast => .pure t (by omega) hlast
    | _ => exact .refused _ pos (run_bind_of_ok (run_look_zero ht)) rfl hpos
  | keyword k =>
    have hlt := hended.succ_lt ht (by simp)
    cases k with
    | string =>
      exact .advance hlt ((hi (pos + 1) (by omega) hlt).map (by omega))
    | number =>
      exact .advance hlt ((hi (pos + 1) (by omega) hlt).map (by omega))
    | request =>
      exact .advance hlt ((tracks_takeString hended low (pos + 1) (by omega) hlt).map (by omega))
    | method m =>
      exact .advance hlt ((tracks_call hended hfuel m (pos + 1) (by omega) hlt).mono (by omega))
    | _ => exact .refused _ pos (run_bind_of_error (run_takeName_of_keyword ht)) rfl hpos
  | eof => exact .refused _ pos (run_bind_of_ok (run_look_zero ht)) rfl hpos

theorem tracks_product (hfuel : tokens.length ≤ fuel + low)
    (hi : Tracks tokens (low + 1) depth inner reader) :
    Tracks tokens low depth (product tokens fuel inner)
      (chain (readAtom reader) factorSign?) :=
  .joined hended rfl (tracks_atom hended hfuel hi) hfuel

theorem tracks_sum (hfuel : tokens.length ≤ fuel + low)
    (hi : Tracks tokens (low + 1) depth inner reader) :
    Tracks tokens low depth (sum tokens fuel inner) (readSum reader) :=
  .joined hended rfl (tracks_product hended hfuel hi) hfuel

theorem tracks_termOver (hfuel : tokens.length ≤ fuel + low)
    (hi : Tracks tokens (low + 1) depth inner reader) :
    Tracks tokens low depth (termOver tokens fuel inner) (readTermOver reader) := by
  intro pos hlow hpos
  refine (tracks_sum hended hfuel hi pos hlow hpos).bind fun subject after hafter hin => ?_
  obtain ⟨t, p, ht⟩ := exists_drop_eq_cons hin
  dsimp only
  rw [run_peek_bind ht, ht]
  split
  · next hmatching =>
    subst hmatching
    have hlt := hended.succ_lt ht (by simp)
    exact .advance hlt ((tracks_sum hended hfuel hi (after + 1) (by omega) hlt).map (by omega))
  · next hother =>
    split
    · next heq =>
      cases heq
      exact absurd rfl hother
    · rw [← ht]
      exact .pure subject hafter hin

end Inner

/-- By induction on the fuel, of which each level takes one. -/
theorem tracks_termAt {room : Nat} (hfuel : tokens.length ≤ fuel + low)
    (hroom : tokens.length ≤ room + low) :
    Tracks tokens low depth (term tokens limit fuel) (readTermAt limit room depth) := by
  induction fuel generalizing room low depth with
  | zero => exact fun pos hlow hpos => absurd hpos (by omega)
  | succ fuel ih =>
    cases room with
    | zero => exact fun pos hlow hpos => absurd hpos (by omega)
    | succ room => exact tracks_termOver hended hfuel (.nested (ih (by omega) (by omega)))

theorem tracks_term (hfuel : tokens.length ≤ fuel + low) :
    Tracks tokens low depth (term tokens limit fuel) (readTerm limit depth) :=
  .of_room fun _ _ hlow hroom => tracks_termAt hended (by omega) hroom

end

end Walk

end Policy.Source
