import Policy.Proofs.Source.Printed.Term

namespace Policy.Source

variable {α β γ : Type}

/-! ## What may follow

A reader decides by the token behind what it takes whether it goes on. Only the parameters of a call
need more than one token to tell. -/

/-- The tokens start with `name = name`, as the parameters of a call do. -/
def startsParameter : List Token → Bool
  | .name _ :: .mark .eq :: .name _ :: _ => true
  | _ => false

/-- The tokens end with a call without parameters. -/
def endsInCall (ts : List Token) : Bool :=
  match ts.reverse with
  | .str _ :: .keyword (.method _) :: _ => true
  | _ => false

/-- Tokens that go on with nothing in front of them. -/
def Token.closes (t : Token) : Bool := !t.joins && t != .keyword .otherwise

/-- Tokens that parameters of a call end in front of, whatever follows them. The end of a text is
none of them, since other text can take its place. -/
def Token.separates : Token → Bool
  | .name _ | .mark .comma | .eof => false
  | _ => true

/-- What may stand behind a front that was read in front of the token `t`: the same token or, where
the text ended, one that goes on with nothing. A call at the end of the front finds no parameters. -/
structure Follows (front : List Token) (t : Token) (more : List Token) : Prop where
  token : next more = t ∨ t = .eof ∧ (next more).closes = true
  call : endsInCall front = true → startsParameter more = false
  comma : next more = .mark .comma → startsParameter more.tail = false

theorem endsInCall_append (before : List Token) {front : List Token} (h : endsInCall front = true) :
    endsInCall (before ++ front) = true := by
  unfold endsInCall at h ⊢
  rw [List.reverse_append]
  split at h
  · next heq => rw [heq]; rfl
  · cases h

theorem startsParameter_of_separates {more : List Token} (h : (next more).separates = true) :
    startsParameter more = false := by
  unfold startsParameter
  split
  · cases h
  · rfl

namespace Follows

variable {front : List Token} {t : Token} {more : List Token}

/-- What follows a list of tokens follows its last part. -/
theorem last (before : List Token) (h : Follows (before ++ front) t more) :
    Follows front t more where
  token := h.token
  call hcall := h.call (endsInCall_append before hcall)
  comma := h.comma

/-- The same token as before, in front of other ones. -/
theorem same (h : next more = t) (ht : t.separates = true) : Follows front t more where
  token := .inl h
  call _ := startsParameter_of_separates (h ▸ ht)
  comma hcomma := by
    rw [← h, hcomma] at ht
    cases ht

/-- Where the token `u` did not stand and goes on with something, it does not stand now. -/
theorem ne {u : Token} (h : Follows front t more) (ht : t ≠ u) (hu : u.closes = false) :
    next more ≠ u := by
  rintro rfl
  rcases h.token with hsame | ⟨-, hcloses⟩
  · exact ht hsame.symm
  · rw [hu] at hcloses
    cases hcloses

end Follows

theorem peek_ne {located : List Located} {t : Token} (ht : t ≠ .eof)
    (h : ∀ p rest, located = ⟨t, p⟩ :: rest → False) : peek located ≠ t := by
  cases located with
  | nil => exact ht.symm
  | cons u rest =>
    obtain ⟨token, p⟩ := u
    rintro rfl
    exact h p rest rfl

/-! ## Readers that stay within their front -/

/-- Tokens from which `again` reads `x` wherever they stand, given room for each of them. They were
read in front of the token `t`. -/
structure Front (again : Nat → Reader α) (front : List Token) (t : Token) (x : α) : Prop where
  nonempty : front ≠ []
  solid : .eof ∉ front
  reads : ∀ room more, front.length ≤ room → Follows front t more →
    Reads (again room) (front ++ more) more x

/-- Whatever the reader takes, `again` takes from the same tokens in front of other ones. -/
def Local (reader : Reader α) (again : Nat → Reader α) : Prop :=
  ∀ located x rest, reader located = .ok (x, rest) →
    ∃ front, located.map (·.token) = front ++ rest.map (·.token) ∧ Front again front (peek rest) x

namespace Front

variable {again : Nat → Reader α} {again' : Nat → Reader β} {front : List Token} {t u : Token}
  {x : α} {y : β}

theorem roomier (h : Front again front t x) : Front (fun room => again (room + 1)) front t x where
  nonempty := h.nonempty
  solid := h.solid
  reads room more hroom hmore := h.reads (room + 1) more (by omega) hmore

/-- No front is read without room. -/
theorem congr {other : Nat → Reader α} (h : Front again front t x)
    (heq : ∀ room, again (room + 1) = other (room + 1)) : Front other front t x where
  nonempty := h.nonempty
  solid := h.solid
  reads := by
    intro room more hroom hmore
    have hpos := List.length_pos_iff.mpr h.nonempty
    obtain ⟨room, rfl⟩ : ∃ k, room = k + 1 := ⟨room - 1, by omega⟩
    rw [← heq]
    exact h.reads (room + 1) more hroom hmore

/-- Behind a token that tells what to go on with. -/
theorem behind (h : Front again front t x) (hu : u ≠ .eof)
    (hreads : ∀ room more, Reads (again room) (front ++ more) more x →
      Reads (again' (room + 1)) (u :: (front ++ more)) more y) :
    Front again' (u :: front) t y where
  nonempty := List.cons_ne_nil _ _
  solid := by simp [hu.symm, h.solid]
  reads := by
    intro room more hroom hmore
    rw [List.length_cons] at hroom
    obtain ⟨room, rfl⟩ : ∃ k, room = k + 1 := ⟨room - 1, by omega⟩
    have hlast : Follows front t more := Follows.last [u] hmore
    exact hreads room more (h.reads room more (by omega) hlast)

/-- Between two tokens, the second of which nothing goes on behind. -/
theorem between {close : Token} (h : Front again front close x) (hu : u ≠ .eof)
    (hclose : close.separates = true)
    (hreads : ∀ room more, Reads (again room) (front ++ close :: more) (close :: more) x →
      Reads (again' (room + 1)) (u :: (front ++ close :: more)) more y) :
    Front again' (u :: (front ++ [close])) t y where
  nonempty := List.cons_ne_nil _ _
  solid := by
    have hne : close ≠ .eof := by
      rintro rfl
      cases hclose
    simp [hu.symm, hne.symm, h.solid]
  reads := by
    intro room more hroom _
    simp only [List.length_cons, List.length_append] at hroom
    obtain ⟨room, rfl⟩ : ∃ k, room = k + 1 := ⟨room - 1, by omega⟩
    have hinside : Follows front close (close :: more) := Follows.same rfl hclose
    have hread := hreads room more (h.reads room _ (by omega) hinside)
    rw [List.cons_append, List.append_assoc]
    exact hread

end Front

namespace Local

variable {reader : Reader α} {again : Nat → Reader α}

theorem expected (wanted : String) (again : Nat → Reader α) :
    Local (Source.expected wanted) again := by
  intro located x rest h
  cases h

theorem nested {limit : Option Nat} {depth : Nat} {inner : Nat → Reader α}
    {again : Nat → Nat → Reader α} (h : Local (inner (depth + 1)) fun room => again room (depth + 1)) :
    Local (Source.nested limit depth inner) fun room => Source.nested limit depth (again room) := by
  intro located x rest hr
  have hopen (other : Nat → Reader α) := nested_of_ok hr other
  rw [hopen] at hr
  obtain ⟨front, hfront, hf⟩ := h located x rest hr
  refine ⟨front, hfront, hf.nonempty, hf.solid, fun room more hroom hmore => ?_⟩
  rw [hopen]
  exact hf.reads room more hroom hmore

/-- A reader that takes room for all its tokens. -/
theorem of_length {readers : Nat → Reader α}
    (h : ∀ room, Local (readers room) readers) :
    Local (fun located => readers (located.length + 1) located)
      fun _ located => readers (located.length + 1) located := by
  intro located x rest hr
  obtain ⟨front, hfront, hf⟩ := h _ located x rest hr
  refine ⟨front, hfront, hf.nonempty, hf.solid, fun _ more _ hmore => ?_⟩
  refine reads_of_room readers fun room hroom => ?_
  rw [List.length_append] at hroom
  exact hf.reads room more (by omega) hmore

end Local

/-! ## Lists of operands -/

/-- Tokens behind a first operand, perhaps none, that `again` goes on to `x` with wherever they
stand. They start with the token `first` or end at once in front of it. -/
structure Tail (again : Nat → Nat → Reader β) (first : Token) (tail : List Token) (t : Token)
    (x : β) : Prop where
  solid : .eof ∉ tail
  follows : ∀ before more, Follows (before ++ tail) t more → Follows before first (tail ++ more)
  reads : ∀ room steps more, tail.length ≤ room → tail.length ≤ steps → Follows tail t more →
    Reads (again room steps) (tail ++ more) more x

namespace Tail

variable {again : Nat → Nat → Reader β} {t u v : Token} {x : β}

theorem nil
    (hreads : ∀ room steps more, Follows [] t more → Reads (again room steps) more more x) :
    Tail again t [] t x where
  solid := List.not_mem_nil
  follows before more hmore := by
    rw [List.append_nil] at hmore
    exact hmore
  reads room steps more _ _ hmore := hreads room steps more hmore

/-- One more operand behind the token `u`. It takes one step. -/
theorem cons {operand : Nat → Reader α} {later : Nat → Nat → Reader β} {front tail : List Token}
    {a : α} {y : β} (hu : u ≠ .eof) (hfollows : ∀ before more, Follows before u (u :: (front ++ more)))
    (hfront : Front operand front t a) (htail : Tail later t tail v x)
    (hreads : ∀ room steps more, Reads (operand room) (front ++ (tail ++ more)) (tail ++ more) a →
      Reads (later room steps) (tail ++ more) more x →
      Reads (again room (steps + 1)) (u :: (front ++ (tail ++ more))) more y) :
    Tail again u (u :: (front ++ tail)) v y where
  solid := by simp [hu.symm, hfront.solid, htail.solid]
  follows before more _ := by
    rw [List.cons_append, List.append_assoc]
    exact hfollows before (tail ++ more)
  reads := by
    intro room steps more hroom hsteps hmore
    simp only [List.length_cons, List.length_append] at hroom hsteps
    obtain ⟨steps, rfl⟩ : ∃ k, steps = k + 1 := ⟨steps - 1, by omega⟩
    have hbehind : Follows (front ++ tail) v more := hmore.last [u]
    rw [List.cons_append, List.append_assoc]
    refine hreads room steps more ?_ ?_
    · exact hfront.reads room _ (by omega) (htail.follows front more hbehind)
    · exact htail.reads room steps more (by omega) (by omega) (hbehind.last front)

/-- A first operand and the tail behind it, which takes as many steps as there are tokens left. -/
theorem front {operand : Nat → Reader α} {whole : Nat → Reader γ} {front tail : List Token} {a : α}
    {y : γ} (hfront : Front operand front t a) (htail : Tail again t tail v x)
    (hwhole : ∀ room located middle rest, operand room located = .ok (a, middle) →
      again room middle.length middle = .ok (x, rest) → whole room located = .ok (y, rest)) :
    Front whole (front ++ tail) v y where
  nonempty := List.append_ne_nil_of_left_ne_nil hfront.nonempty _
  solid := by simp [hfront.solid, htail.solid]
  reads := by
    intro room more hroom hmore
    rw [List.length_append] at hroom
    have hoperand : Reads (operand room) (front ++ (tail ++ more)) (tail ++ more) a :=
      hfront.reads room _ (by omega) (htail.follows front more hmore)
    rw [List.append_assoc]
    intro located hl
    obtain ⟨middle, hm, hx⟩ := hoperand located hl
    have hsteps : tail.length ≤ middle.length := by
      have hlength := congrArg List.length hm
      rw [List.length_map, List.length_append] at hlength
      omega
    have hrest := htail.reads room middle.length more (by omega) hsteps (hmore.last front)
    obtain ⟨rest, hr, hy⟩ := hrest middle hm
    exact ⟨rest, hr, hwhole room located middle rest hx hy⟩

end Tail

/-! ## Operators between operands -/

/-- Operators stand inside of what they join, and nothing that closes is one. -/
structure Joining (op : Token → Option (α → α → α)) : Prop where
  separates : ∀ t join, op t = some join → t.separates = true
  closes : ∀ t, t.closes = true → op t = none

section Chain

variable {operand : Reader α} {op : Token → Option (α → α → α)} {again : Nat → Reader α}

theorem reads_chainFrom_nil {room : Nat} {left : α} {more : List Token}
    (h : op (next more) = none) : Reads (chainFrom operand op room left) more more left := by
  intro located hl
  refine ⟨located, hl, ?_⟩
  unfold chainFrom
  split
  · rfl
  · rw [peek_eq_next hl, h]

/-- Where no operator was found, none is found behind the same front. -/
theorem Joining.none_of_follows (hop : Joining op) {t : Token} (ht : op t = none)
    {front more : List Token} (h : Follows front t more) : op (next more) = none := by
  rcases h.token with hnext | ⟨-, hcloses⟩
  · rw [hnext]
    exact ht
  · exact hop.closes _ hcloses

theorem tail_chainFrom_nil (hop : Joining op) {t : Token} (ht : op t = none) (left : α) :
    Tail (fun room steps => chainFrom (again room) op steps left) t [] t left :=
  Tail.nil fun _ _ _ hmore => reads_chainFrom_nil (hop.none_of_follows ht hmore)

theorem tail_chainFrom_cons (hop : Joining op) {t u v : Token} {join : α → α → α}
    (hjoin : op u = some join) {left right x : α} {front tail : List Token}
    (hright : Front again front t right)
    (htail : Tail (fun room steps => chainFrom (again room) op steps (join left right)) t tail v x) :
    Tail (fun room steps => chainFrom (again room) op steps left) u (u :: (front ++ tail)) v x := by
  have hsep := hop.separates _ _ hjoin
  have hu : u ≠ .eof := by
    rintro rfl
    cases hsep
  refine Tail.cons hu (fun before more => Follows.same rfl hsep) hright htail ?_
  intro room steps more hoperand hrest located hl
  obtain ⟨p, behind, rfl, hbehind⟩ := exists_of_map_cons hl
  obtain ⟨middle, hm, hx⟩ := hoperand behind hbehind
  obtain ⟨rest, hr, hy⟩ := hrest middle hm
  refine ⟨rest, hr, ?_⟩
  simp only [chainFrom, peek, hjoin, List.tail_cons, hx, ok_bind, hy]

/-- By induction on the room, of which each operator takes one. -/
theorem exists_tail_chainFrom (ho : Local operand again) (hop : Joining op) {room : Nat}
    {left x : α} {located rest : List Located} (hroom : located.length ≤ room)
    (h : chainFrom operand op room left located = .ok (x, rest)) :
    ∃ tail, located.map (·.token) = tail ++ rest.map (·.token) ∧
      Tail (fun room steps => chainFrom (again room) op steps left) (peek located) tail (peek rest)
        x := by
  induction room generalizing left located with
  | zero =>
    cases List.length_eq_zero_iff.mp (Nat.le_zero.mp hroom)
    cases h
    have hnone : op .eof = none := by
      cases heof : op .eof with
      | none => rfl
      | some join => exact absurd (hop.separates _ _ heof) Bool.false_ne_true
    exact ⟨[], rfl, tail_chainFrom_nil hop hnone x⟩
  | succ room ih =>
    simp only [chainFrom] at h
    split at h
    · next hnone =>
      cases h
      exact ⟨[], rfl, tail_chainFrom_nil hop hnone x⟩
    · next join hjoin =>
      cases located with
      | nil => exact absurd (hop.separates _ _ hjoin) Bool.false_ne_true
      | cons t located =>
        obtain ⟨⟨right, middle⟩, hright, h⟩ := bind_ok_iff.mp h
        obtain ⟨front, hfront, hf⟩ := ho _ _ _ hright
        have hfront : located.map (·.token) = front ++ middle.map (·.token) := hfront
        have hless : middle.length ≤ room := by
          have hlength := congrArg List.length hfront
          simp only [List.length_append, List.length_map] at hlength
          rw [List.length_cons] at hroom
          omega
        obtain ⟨tail, htail, ht⟩ := ih hless h
        refine ⟨t.token :: (front ++ tail), ?_, tail_chainFrom_cons hop hjoin hf ht⟩
        rw [List.map_cons, hfront, htail, List.cons_append, List.append_assoc]

theorem Local.chain (ho : Local operand again) (hop : Joining op) :
    Local (Source.chain operand op) fun room => Source.chain (again room) op := by
  intro located x rest h
  obtain ⟨⟨first, middle⟩, hfirst, h⟩ := bind_ok_iff.mp h
  obtain ⟨front, hfront, hf⟩ := ho _ _ _ hfirst
  obtain ⟨tail, htail, ht⟩ := exists_tail_chainFrom ho hop (Nat.le_refl _) h
  refine ⟨front ++ tail, by rw [hfront, htail, List.append_assoc], ?_⟩
  refine Tail.front hf ht fun room located middle rest hx hy => ?_
  simp only [Source.chain, hx, ok_bind, hy]

end Chain

end Policy.Source
