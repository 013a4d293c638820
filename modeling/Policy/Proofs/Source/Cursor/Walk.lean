import Policy.Proofs.Source.Progress

namespace Policy.Source

/-! ## Reading with one cursor

The tokens read once more, with one cursor that all productions share. A production moves it over
what it takes, and counts the levels that it opens and closes. Nothing but `fuel` bounds the levels
and the loops. -/

/-- A place among the tokens, and the number of levels that are open there. -/
structure Cursor where
  pos : Nat
  depth : Nat
  deriving DecidableEq

/-- Why a walk has no outcome: it looked outside of the tokens, or its fuel did not suffice. -/
inductive Stuck where
  | outside
  | endless
  deriving DecidableEq

/-- A computation that moves the cursor. A refusal leaves the cursor where it is. -/
abbrev Walk := ExceptT Refusal (StateT Cursor (Except Stuck))

namespace Walk

variable {α β : Type} (tokens : List Located) (limit : Option Nat)

def stuck (why : Stuck) : Walk α := ExceptT.mk fun _ => .error why

/-- The token `n` places ahead, or the last token where there are fewer. -/
def look (n : Nat) : Walk Located := ExceptT.mk fun c =>
  match tokens[min (c.pos + n) (tokens.length - 1)]? with
  | some t => .ok (.ok t, c)
  | none => .error .outside

def ahead (n : Nat) : Walk Token := do
  let t ← look tokens n
  pure t.token

/-- Moves on by a token. On the last one the cursor stays. -/
def advance : Walk Unit := do
  let _ ← look tokens 0
  modify fun c => if c.pos < tokens.length - 1 then { c with pos := c.pos + 1 } else c

def refuse (cause : Cause) : Walk α := do
  let t ← look tokens 0
  throw ⟨t.pos, cause⟩

def expected (wanted : String) : Walk α := do
  let t ← look tokens 0
  throw ⟨t.pos, .unexpected wanted t.token⟩

def expect (t : Token) (wanted : String) : Walk Unit := do
  if (← ahead tokens 0) = t then advance tokens else expected tokens wanted

def takeName : Walk String := do
  match ← ahead tokens 0 with
  | .name text => do
    advance tokens
    pure text
  | .keyword k => refuse tokens (.reservedWord k)
  | _ => expected tokens "identifier"

def takeString : Walk String := do
  match ← ahead tokens 0 with
  | .str text => do
    advance tokens
    pure text
  | _ => expected tokens "string literal"

/-- What the walk ends with, a refusal included. The cursor stays where the walk left it. -/
def outcome (walk : Walk α) : Walk (Except Refusal α) := ExceptT.lift walk.run

/-- Opens a level for the walk, and closes it behind the walk, also behind a refusal. -/
def deeper (walk : Walk α) : Walk α := do
  modify fun c => { c with depth := c.depth + 1 }
  let found ← outcome walk
  modify fun c => { c with depth := c.depth - 1 }
  MonadExcept.ofExcept found

def nested (walk : Walk α) : Walk α := do
  let c ← get
  match limit with
  | some most => if most ≤ c.depth then refuse tokens (.tooDeep most) else deeper walk
  | none => deeper walk

/-- Goes on behind a first operand, as long as operators follow. -/
def joinFrom (operand : Walk α) (op : Token → Option (α → α → α)) : (fuel : Nat) → α → Walk α
  | 0, _ => stuck .endless
  | fuel + 1, left => do
    match op (← ahead tokens 0) with
    | none => pure left
    | some join => do
      advance tokens
      let right ← operand
      joinFrom operand op fuel (join left right)

def joined (fuel : Nat) (operand : Walk α) (op : Token → Option (α → α → α)) : Walk α := do
  let first ← operand
  joinFrom tokens operand op fuel first

/-! ## Where walks arrive -/

variable {tokens limit} {depth least pos : Nat} {walk : Walk α} {next : α → Walk β}

theorem run_bind_of_ok {c c' : Cursor} {x : α} (h : walk.run.run c = .ok (.ok x, c')) :
    (walk >>= next).run.run c = (next x).run.run c' := by
  show ((walk.run.run c).bind fun p => (ExceptT.bindCont next p.1).run p.2) = _
  rw [h]
  rfl

theorem run_bind_of_error {c c' : Cursor} {r : Refusal} (h : walk.run.run c = .ok (.error r, c')) :
    (walk >>= next).run.run c = .ok (.error r, c') := by
  show ((walk.run.run c).bind fun p => (ExceptT.bindCont next p.1).run p.2) = _
  rw [h]
  rfl

/-- A run ends as the reading does, among the tokens and with `depth` levels open. Where it finds
something, it ends at `least` or behind it, and the reading leaves the tokens from there on. -/
inductive Arrives (tokens : List Located) (depth least : Nat)
    (run : Except Stuck (Except Refusal α × Cursor))
    (reading : Except Refusal (α × List Located)) : Prop
  | found (x : α) (pos : Nat) (hrun : run = .ok (.ok x, ⟨pos, depth⟩))
    (hreading : reading = .ok (x, tokens.drop pos)) (hleast : least ≤ pos)
    (hpos : pos < tokens.length)
  | refused (r : Refusal) (pos : Nat) (hrun : run = .ok (.error r, ⟨pos, depth⟩))
    (hreading : reading = .error r) (hpos : pos < tokens.length)

namespace Arrives

theorem pure (x : α) (hleast : least ≤ pos) (hpos : pos < tokens.length) :
    Arrives tokens depth least ((Pure.pure x : Walk α).run.run ⟨pos, depth⟩)
      (.ok (x, tokens.drop pos)) :=
  .found x pos rfl rfl hleast hpos

theorem mono {run : Except Stuck (Except Refusal α × Cursor)}
    {reading : Except Refusal (α × List Located)} {least' : Nat}
    (h : Arrives tokens depth least' run reading) (hle : least ≤ least') :
    Arrives tokens depth least run reading := by
  cases h with
  | found x pos hrun hreading hleast hpos =>
    exact .found x pos hrun hreading (Nat.le_trans hle hleast) hpos
  | refused r pos hrun hreading hpos => exact .refused r pos hrun hreading hpos

/-- A walk and the walk that its result leads to. -/
theorem bind {c : Cursor} {reading : Except Refusal (α × List Located)} {least' : Nat}
    {readNext : α × List Located → Except Refusal (β × List Located)}
    (h : Arrives tokens depth least (walk.run.run c) reading)
    (hnext : ∀ x pos, least ≤ pos → pos < tokens.length →
      Arrives tokens depth least' ((next x).run.run ⟨pos, depth⟩)
        (readNext (x, tokens.drop pos))) :
    Arrives tokens depth least' ((walk >>= next).run.run c) (reading >>= readNext) := by
  cases h with
  | found x pos hrun hreading hleast hpos =>
    rw [run_bind_of_ok hrun, hreading]
    exact hnext x pos hleast hpos
  | refused r pos hrun hreading hpos =>
    rw [run_bind_of_error hrun, hreading]
    exact .refused r pos rfl rfl hpos

/-- A walk whose result is made into another one, where no more is taken. -/
theorem map {c : Cursor} {reading : Except Refusal (α × List Located)} {least' : Nat} {f : α → β}
    (h : Arrives tokens depth least' (walk.run.run c) reading) (hle : least ≤ least') :
    Arrives tokens depth least ((do let x ← walk; Pure.pure (f x)).run.run c)
      (do let (x, rest) ← reading; Pure.pure (f x, rest)) :=
  h.bind fun x _ hleast hpos => .pure (f x) (Nat.le_trans hle hleast) hpos

end Arrives

/-- From `low` on, the walk arrives where the reader does, and behind the token that it starts
with. -/
def Tracks (tokens : List Located) (low depth : Nat) (walk : Walk α) (reader : Reader α) : Prop :=
  ∀ pos, low ≤ pos → pos < tokens.length →
    Arrives tokens depth (pos + 1) (walk.run.run ⟨pos, depth⟩) (reader (tokens.drop pos))

/-! ## Steps -/

/-- The last token is the end of the text. -/
def Ended (tokens : List Located) : Prop := ∃ body p, tokens = body ++ [⟨.eof, p⟩]

theorem Ended.cons (h : Ended tokens) (t : Located) : Ended (t :: tokens) := by
  obtain ⟨body, p, rfl⟩ := h
  exact ⟨t :: body, p, rfl⟩

theorem ended_of_scanFrom {room : Nat} {p : Position} {afterTerm : Bool} {cs : List Char}
    (h : scanFrom room p afterTerm cs = .ok tokens) : Ended tokens := by
  induction room generalizing p afterTerm cs tokens with
  | zero =>
    cases h
    exact ⟨[], p, rfl⟩
  | succ room ih =>
    cases cs with
    | nil =>
      cases h
      exact ⟨[], p, rfl⟩
    | cons c cs =>
      simp only [scanFrom] at h
      split at h
      · cases h
      · exact ih h
      · obtain ⟨more, hmore, h⟩ := bind_ok_iff.mp h
        cases h
        exact (ih hmore).cons _

theorem ended_of_scan {text : String} (h : scan text = .ok tokens) : Ended tokens :=
  ended_of_scanFrom h

theorem Ended.getElem?_last (h : Ended tokens) :
    ∃ p, tokens[tokens.length - 1]? = some ⟨.eof, p⟩ := by
  obtain ⟨body, p, rfl⟩ := h
  exact ⟨p, by simp⟩

theorem getElem?_of_drop {t : Located} {rest : List Located} (h : tokens.drop pos = t :: rest) :
    tokens[pos]? = some t := by
  rw [← List.head?_drop, h]
  rfl

theorem lt_of_drop {t : Located} {rest : List Located} (h : tokens.drop pos = t :: rest) :
    pos < tokens.length :=
  (List.getElem?_eq_some_iff.mp (getElem?_of_drop h)).1

theorem exists_drop_eq_cons (hpos : pos < tokens.length) :
    ∃ t p, tokens.drop pos = ⟨t, p⟩ :: tokens.drop (pos + 1) :=
  ⟨tokens[pos].token, tokens[pos].pos, List.drop_eq_getElem_cons hpos⟩

/-- Only the end of the text can be the last token. -/
theorem Ended.succ_lt (h : Ended tokens) {t : Located} {rest : List Located}
    (ht : tokens.drop pos = t :: rest) (hne : t.token ≠ .eof) : pos + 1 < tokens.length := by
  obtain ⟨p, hlast⟩ := h.getElem?_last
  have hpos := lt_of_drop ht
  refine Nat.lt_of_le_of_ne hpos fun hend => hne ?_
  have hsame : some t = some ⟨.eof, p⟩ := by
    rw [← getElem?_of_drop ht, ← hlast, ← hend, Nat.add_sub_cancel]
  rw [Option.some.inj hsame]

theorem peek_of_drop {t : Token} {p : Position} {rest : List Located}
    (h : tokens.drop pos = ⟨t, p⟩ :: rest) : Source.peek (tokens.drop pos) = t := by
  rw [h]
  rfl

theorem length_le_drop (tokens : List Located) (pos : Nat) :
    tokens.length ≤ (tokens.drop pos).length + pos := by
  rw [List.length_drop]
  omega

theorem run_look {n : Nat} {t : Located}
    (h : tokens[min (pos + n) (tokens.length - 1)]? = some t) :
    (look tokens n).run.run ⟨pos, depth⟩ = .ok (.ok t, ⟨pos, depth⟩) := by
  unfold look
  rw [ExceptT.run_mk]
  show (match tokens[min (pos + n) (tokens.length - 1)]? with
    | some t => (.ok (.ok t, ⟨pos, depth⟩) : Except Stuck (Except Refusal Located × Cursor))
    | none => .error .outside) = _
  rw [h]

theorem run_look_zero {t : Located} {rest : List Located} (h : tokens.drop pos = t :: rest) :
    (look tokens 0).run.run ⟨pos, depth⟩ = .ok (.ok t, ⟨pos, depth⟩) := by
  have hpos := lt_of_drop h
  refine run_look ?_
  rw [Nat.add_zero, Nat.min_eq_left (by omega)]
  exact getElem?_of_drop h

theorem run_look_zero_bind {next : Located → Walk β} {t : Located} {rest : List Located}
    (h : tokens.drop pos = t :: rest) :
    (look tokens 0 >>= next).run.run ⟨pos, depth⟩ = (next t).run.run ⟨pos, depth⟩ :=
  run_bind_of_ok (run_look_zero h)

/-- Ahead of the last token the end of the text is seen again and again. -/
theorem run_ahead (h : Ended tokens) (n : Nat) :
    (ahead tokens n).run.run ⟨pos, depth⟩ =
      .ok (.ok (Source.peek (tokens.drop (pos + n))), ⟨pos, depth⟩) := by
  by_cases hn : pos + n < tokens.length
  · obtain ⟨t, p, ht⟩ := exists_drop_eq_cons hn
    have hlook : tokens[min (pos + n) (tokens.length - 1)]? = some ⟨t, p⟩ := by
      rw [Nat.min_eq_left (by omega)]
      exact getElem?_of_drop ht
    rw [ht]
    exact run_bind_of_ok (run_look hlook)
  · obtain ⟨p, hlast⟩ := h.getElem?_last
    have hlook : tokens[min (pos + n) (tokens.length - 1)]? = some ⟨.eof, p⟩ := by
      rw [Nat.min_eq_right (by omega)]
      exact hlast
    rw [List.drop_of_length_le (Nat.not_lt.mp hn)]
    exact run_bind_of_ok (run_look hlook)

theorem run_ahead_bind (h : Ended tokens) (n : Nat) {next : Token → Walk β} :
    (ahead tokens n >>= next).run.run ⟨pos, depth⟩ =
      (next (Source.peek (tokens.drop (pos + n)))).run.run ⟨pos, depth⟩ :=
  run_bind_of_ok (run_ahead h n)

/-- The token that the cursor stands on decides how to go on. -/
theorem run_peek_bind {next : Token → Walk β} {t : Token} {p : Position} {rest : List Located}
    (ht : tokens.drop pos = ⟨t, p⟩ :: rest) :
    (ahead tokens 0 >>= next).run.run ⟨pos, depth⟩ = (next t).run.run ⟨pos, depth⟩ :=
  run_bind_of_ok (run_bind_of_ok (run_look_zero ht))

theorem run_advance (hpos : pos + 1 < tokens.length) :
    (advance tokens).run.run ⟨pos, depth⟩ = .ok (.ok (), ⟨pos + 1, depth⟩) := by
  obtain ⟨t, p, ht⟩ := exists_drop_eq_cons (Nat.lt_of_succ_lt hpos)
  unfold advance
  rw [run_look_zero_bind ht]
  show Except.ok (Except.ok (), if pos < tokens.length - 1 then
    Cursor.mk (pos + 1) depth else _) = _
  rw [if_pos (by omega)]

theorem run_advance_bind {next : Unit → Walk β} (hpos : pos + 1 < tokens.length) :
    (advance tokens >>= next).run.run ⟨pos, depth⟩ = (next ()).run.run ⟨pos + 1, depth⟩ :=
  run_bind_of_ok (run_advance hpos)

/-- A walk behind the token that the cursor stands on. -/
theorem Arrives.advance {next : Unit → Walk β} {reading : Except Refusal (β × List Located)}
    (hpos : pos + 1 < tokens.length)
    (h : Arrives tokens depth least ((next ()).run.run ⟨pos + 1, depth⟩) reading) :
    Arrives tokens depth least ((advance tokens >>= next).run.run ⟨pos, depth⟩) reading := by
  rw [run_advance_bind hpos]
  exact h

section Refusals

variable (hpos : pos < tokens.length)
include hpos

theorem arrives_refuse (cause : Cause) :
    Arrives tokens depth least ((refuse tokens cause : Walk α).run.run ⟨pos, depth⟩)
      (Source.refuse cause (tokens.drop pos)) := by
  obtain ⟨t, p, ht⟩ := exists_drop_eq_cons hpos
  unfold refuse
  rw [run_look_zero_bind ht, ht]
  exact .refused _ pos rfl rfl hpos

theorem arrives_expected (wanted : String) :
    Arrives tokens depth least ((expected tokens wanted : Walk α).run.run ⟨pos, depth⟩)
      (Source.expected wanted (tokens.drop pos)) := by
  obtain ⟨t, p, ht⟩ := exists_drop_eq_cons hpos
  unfold expected
  rw [run_look_zero_bind ht, ht]
  exact .refused _ pos rfl rfl hpos

end Refusals

theorem expectMark_cons (m : Mark) (wanted : String) (t : Token) (p : Position)
    (rest : List Located) :
    expectMark m wanted (⟨t, p⟩ :: rest) =
      if t = .mark m then .ok rest else .error ⟨p, .unexpected wanted t⟩ := by
  unfold expectMark
  split
  · next heq =>
    cases heq
    simp only [Token.mark.injEq]
  · next hother => exact (if_neg fun ht => hother m p rest (by rw [ht])).symm

theorem expectKeyword_cons (k : Keyword) (t : Token) (p : Position) (rest : List Located) :
    expectKeyword k (⟨t, p⟩ :: rest) =
      if t = .keyword k then .ok rest else .error ⟨p, .unexpected ("'" ++ k.text ++ "'") t⟩ := by
  unfold expectKeyword
  split
  · next heq =>
    cases heq
    simp only [Token.keyword.injEq]
  · next hother => exact (if_neg fun ht => hother k p rest (by rw [ht])).symm

theorem run_expect {t : Token} {wanted : String} {p : Position} {rest : List Located}
    (ht : tokens.drop pos = ⟨t, p⟩ :: rest) (hlt : pos + 1 < tokens.length) :
    (expect tokens t wanted).run.run ⟨pos, depth⟩ = .ok (.ok (), ⟨pos + 1, depth⟩) := by
  unfold expect
  rw [run_peek_bind ht, if_pos rfl]
  exact run_advance hlt

/-- A walk over a token that has to stand here. -/
theorem arrives_expect {t : Token} {wanted : String} {next : Unit → Walk β}
    {read : List Located → Except Refusal (List Located)}
    {readNext : List Located → Except Refusal (β × List Located)} (hended : Ended tokens)
    (ht : t ≠ .eof) (hpos : pos < tokens.length)
    (hread : ∀ t' p rest, read (⟨t', p⟩ :: rest) =
      if t' = t then .ok rest else .error ⟨p, .unexpected wanted t'⟩)
    (hnext : pos + 1 < tokens.length →
      Arrives tokens depth least ((next ()).run.run ⟨pos + 1, depth⟩)
        (readNext (tokens.drop (pos + 1)))) :
    Arrives tokens depth least ((expect tokens t wanted >>= next).run.run ⟨pos, depth⟩)
      (read (tokens.drop pos) >>= readNext) := by
  obtain ⟨t', p, hdrop⟩ := exists_drop_eq_cons hpos
  rw [hdrop, hread]
  by_cases hsame : t' = t
  · subst hsame
    have hlt := hended.succ_lt hdrop ht
    rw [run_bind_of_ok (run_expect hdrop hlt), if_pos rfl]
    exact hnext hlt
  · have hexpect : (expect tokens t wanted).run.run ⟨pos, depth⟩ =
        .ok (.error ⟨p, .unexpected wanted t'⟩, ⟨pos, depth⟩) := by
      unfold expect
      rw [run_peek_bind hdrop, if_neg hsame]
      exact run_bind_of_ok (run_look_zero hdrop)
    rw [run_bind_of_error hexpect, if_neg hsame]
    exact .refused _ pos rfl rfl hpos

section Steps

variable (hended : Ended tokens)
include hended

theorem arrives_mark {m : Mark} {wanted : String} {next : Unit → Walk β}
    {readNext : List Located → Except Refusal (β × List Located)} (hpos : pos < tokens.length)
    (hnext : pos + 1 < tokens.length →
      Arrives tokens depth least ((next ()).run.run ⟨pos + 1, depth⟩)
        (readNext (tokens.drop (pos + 1)))) :
    Arrives tokens depth least ((expect tokens (.mark m) wanted >>= next).run.run ⟨pos, depth⟩)
      (expectMark m wanted (tokens.drop pos) >>= readNext) :=
  arrives_expect hended (by simp) hpos (expectMark_cons m wanted) hnext

theorem arrives_keyword {k : Keyword} {next : Unit → Walk β}
    {readNext : List Located → Except Refusal (β × List Located)} (hpos : pos < tokens.length)
    (hnext : pos + 1 < tokens.length →
      Arrives tokens depth least ((next ()).run.run ⟨pos + 1, depth⟩)
        (readNext (tokens.drop (pos + 1)))) :
    Arrives tokens depth least
      ((expect tokens (.keyword k) ("'" ++ k.text ++ "'") >>= next).run.run ⟨pos, depth⟩)
      (expectKeyword k (tokens.drop pos) >>= readNext) :=
  arrives_expect hended (by simp) hpos (expectKeyword_cons k) hnext

/-- A walk that takes the token it stands on, and needs no more. -/
theorem arrives_advance {x : α} {t : Token} {p : Position}
    (ht : tokens.drop pos = ⟨t, p⟩ :: tokens.drop (pos + 1)) (hne : t ≠ .eof) :
    Arrives tokens depth (pos + 1)
      ((do advance tokens; pure x : Walk α).run.run ⟨pos, depth⟩)
      (.ok (x, tokens.drop (pos + 1))) := by
  have hlt := hended.succ_lt ht hne
  exact .advance hlt (.pure x (Nat.le_refl _) hlt)

omit hended in
theorem run_takeName {text : String} {p : Position} {rest : List Located}
    (ht : tokens.drop pos = ⟨.name text, p⟩ :: rest) (hlt : pos + 1 < tokens.length) :
    (takeName tokens).run.run ⟨pos, depth⟩ = .ok (.ok text, ⟨pos + 1, depth⟩) := by
  unfold takeName
  rw [run_peek_bind ht]
  exact run_advance_bind hlt

omit hended in
theorem run_takeName_of_keyword {k : Keyword} {p : Position} {rest : List Located}
    (ht : tokens.drop pos = ⟨.keyword k, p⟩ :: rest) :
    (takeName tokens).run.run ⟨pos, depth⟩ =
      .ok (.error ⟨p, .reservedWord k⟩, ⟨pos, depth⟩) := by
  unfold takeName
  rw [run_peek_bind ht]
  exact run_bind_of_ok (run_look_zero ht)

theorem tracks_takeName (low : Nat) : Tracks tokens low depth (takeName tokens) readName := by
  intro pos _ hpos
  obtain ⟨t, p, ht⟩ := exists_drop_eq_cons hpos
  unfold takeName
  rw [run_peek_bind ht, ht]
  cases t with
  | name text => exact arrives_advance hended ht (by simp)
  | _ => exact .refused _ pos (run_bind_of_ok (run_look_zero ht)) rfl hpos

theorem tracks_takeString (low : Nat) : Tracks tokens low depth (takeString tokens) readString := by
  intro pos _ hpos
  obtain ⟨t, p, ht⟩ := exists_drop_eq_cons hpos
  unfold takeString
  rw [run_peek_bind ht, ht]
  cases t with
  | str text => exact arrives_advance hended ht (by simp)
  | _ => exact .refused _ pos (run_bind_of_ok (run_look_zero ht)) rfl hpos

end Steps

theorem run_outcome {c c' : Cursor} {found : Except Refusal α}
    (h : walk.run.run c = .ok (found, c')) : (outcome walk).run.run c = .ok (.ok found, c') := by
  rw [outcome, ExceptT.run_lift, StateT.run_map, h]
  rfl

/-- A level that is closed again, whatever the walk ends with. -/
theorem run_deeper {found : Except Refusal α} {pos' : Nat}
    (h : walk.run.run ⟨pos, depth + 1⟩ = .ok (found, ⟨pos', depth + 1⟩)) :
    (deeper walk).run.run ⟨pos, depth⟩ = .ok (found, ⟨pos', depth⟩) := by
  unfold deeper
  show (do
    let found ← outcome walk
    modify fun c => { c with depth := c.depth - 1 }
    MonadExcept.ofExcept found : Walk α).run.run ⟨pos, depth + 1⟩ = _
  rw [run_bind_of_ok (run_outcome h)]
  cases found with
  | ok x => rfl
  | error r => rfl

theorem Tracks.nested {low : Nat} {reader : Nat → Reader α}
    (h : Tracks tokens low (depth + 1) walk (reader (depth + 1))) :
    Tracks tokens low depth (Walk.nested tokens limit walk) (Source.nested limit depth reader) := by
  intro pos hlow hpos
  have hdeeper : Arrives tokens depth (pos + 1) ((deeper walk).run.run ⟨pos, depth⟩)
      (reader (depth + 1) (tokens.drop pos)) := by
    cases h pos hlow hpos with
    | found x pos' hrun hreading hleast hpos' =>
      exact .found x pos' (run_deeper hrun) hreading hleast hpos'
    | refused r pos' hrun hreading hpos' => exact .refused r pos' (run_deeper hrun) hreading hpos'
  cases limit with
  | none => exact hdeeper
  | some most =>
    show Arrives tokens depth (pos + 1)
      ((if most ≤ depth then refuse tokens (.tooDeep most) else deeper walk).run.run ⟨pos, depth⟩)
      (if most ≤ depth then Source.refuse (.tooDeep most) (tokens.drop pos)
        else reader (depth + 1) (tokens.drop pos))
    split
    · exact arrives_refuse hpos _
    · exact hdeeper

/-- Readers with room for all their tokens. -/
theorem Tracks.of_room {low : Nat} {reader : Nat → Reader α}
    (h : ∀ room pos, low ≤ pos → tokens.length ≤ room + pos →
      Tracks tokens pos depth walk (reader room)) :
    Tracks tokens low depth walk fun ts => reader (ts.length + 1) ts := by
  intro pos hlow hpos
  have hroom := length_le_drop tokens pos
  exact h _ pos hlow (by omega) pos (Nat.le_refl _) hpos

section Chain

variable {operand : Walk α} {reader : Reader α} {op : Token → Option (α → α → α)} {low : Nat}
  (hended : Ended tokens) (hop : op .eof = none) (ho : Tracks tokens low depth operand reader)
include hended hop ho

/-- By induction on the fuel, of which each operator takes one. -/
theorem arrives_joinFrom {fuel room : Nat} {left : α} (hlow : low ≤ pos)
    (hpos : pos < tokens.length) (hfuel : tokens.length ≤ fuel + pos)
    (hroom : tokens.length ≤ room + pos) :
    Arrives tokens depth pos ((joinFrom tokens operand op fuel left).run.run ⟨pos, depth⟩)
      (chainFrom reader op room left (tokens.drop pos)) := by
  induction fuel generalizing room left pos with
  | zero => omega
  | succ fuel ih =>
    obtain ⟨room, rfl⟩ : ∃ k, room = k + 1 := ⟨room - 1, by omega⟩
    obtain ⟨t, p, ht⟩ := exists_drop_eq_cons hpos
    simp only [joinFrom, chainFrom]
    rw [run_peek_bind ht, peek_of_drop ht]
    cases hjoin : op t with
    | none => exact .pure left (Nat.le_refl _) hpos
    | some join =>
      have hne : t ≠ .eof := by
        rintro rfl
        rw [hop] at hjoin
        cases hjoin
      have hlt := hended.succ_lt ht hne
      refine .advance hlt ?_
      rw [List.tail_drop]
      refine (ho (pos + 1) (by omega) hlt).bind fun right after hafter hin => ?_
      exact (ih (by omega) hin (by omega) (by omega)).mono (by omega)

theorem Tracks.joined {fuel : Nat} (hfuel : tokens.length ≤ fuel + low) :
    Tracks tokens low depth (Walk.joined tokens fuel operand op) (chain reader op) := by
  intro pos hlow hpos
  refine (ho pos hlow hpos).bind fun first after hafter hin => ?_
  have hroom := length_le_drop tokens after
  exact (arrives_joinFrom hended hop ho (by omega) hin (by omega) hroom).mono hafter

end Chain

end Walk

end Policy.Source
