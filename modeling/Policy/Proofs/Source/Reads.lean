import Policy.Proofs.Outcome
import Policy.Proofs.Source.Printing

namespace Policy.Source

variable {α β : Type}

/-- The token that a list starts with. -/
def next (ts : List Token) : Token := ts.headD .eof

theorem next_append {ts : List Token} {k : Keyword} (h : next ts = .keyword k) (more : List Token) :
    next (ts ++ more) = .keyword k := by
  cases ts with
  | nil => cases h
  | cons t ts => exact h

/-- The reader finds `x` at the front of the tokens and stops in front of `more`. -/
def Reads (reader : Reader α) (ts more : List Token) (x : α) : Prop :=
  ∀ located, located.map (·.token) = ts →
    ∃ rest, rest.map (·.token) = more ∧ reader located = .ok (x, rest)

theorem peek_eq_next {located : List Located} {ts : List Token}
    (h : located.map (·.token) = ts) : peek located = next ts := by
  subst h
  cases located with
  | nil => rfl
  | cons t located => rfl

/-- Tokens at the front of a list with positions. -/
theorem exists_of_map_cons {located : List Located} {t : Token} {ts : List Token}
    (h : located.map (·.token) = t :: ts) :
    ∃ p rest, located = ⟨t, p⟩ :: rest ∧ rest.map (·.token) = ts := by
  obtain ⟨⟨token, p⟩, rest, rfl, ht, hts⟩ := List.map_eq_cons_iff.mp h
  cases ht
  exact ⟨p, rest, rfl, hts⟩

namespace Reads

variable {reader operand : Reader α} {ts more : List Token} {x : α}

/-- Behind a first token that tells what to go on with. -/
theorem behind {t : Token} {inner : Reader α} (h : Reads inner ts more x)
    (hreader : ∀ p located, reader (⟨t, p⟩ :: located) = inner located) :
    Reads reader (t :: ts) more x := by
  intro located hl
  obtain ⟨p, located, rfl, hinner⟩ := exists_of_map_cons hl
  rw [hreader]
  exact h located hinner

theorem map (h : Reads reader ts more x) (f : α → β) :
    Reads (fun located => do let (x, rest) ← reader located; pure (f x, rest)) ts more (f x) := by
  intro located hl
  obtain ⟨rest, hr, hx⟩ := h located hl
  exact ⟨rest, hr, by simp only [hx, ok_bind]; rfl⟩

theorem nested {most depth : Nat} {inner : Nat → Reader α} (hdepth : depth < most)
    (h : Reads (inner (depth + 1)) ts more x) :
    Reads (Source.nested (some most) depth inner) ts more x := by
  intro located hl
  obtain ⟨rest, hr, hx⟩ := h located hl
  refine ⟨rest, hr, ?_⟩
  simp only [Source.nested, Nat.not_le.mpr hdepth, if_false]
  exact hx

/-- One operand that no operator follows. -/
theorem chain {op : Token → Option (α → α → α)} (h : Reads operand ts more x)
    (hop : op (next more) = none) : Reads (Source.chain operand op) ts more x := by
  intro located hl
  obtain ⟨rest, hr, hx⟩ := h located hl
  refine ⟨rest, hr, ?_⟩
  simp only [Source.chain, hx, ok_bind]
  unfold chainFrom
  split
  · rfl
  · rw [peek_eq_next hr, hop]

/-- Two operands with an operator between them. -/
theorem chain_two {op : Token → Option (α → α → α)} {t : Token} {mid : List Token} {y : α}
    {join : α → α → α} (hx : Reads operand ts (t :: mid) x) (ht : op t = some join)
    (hy : Reads operand mid more y) (hop : op (next more) = none) :
    Reads (Source.chain operand op) ts more (join x y) := by
  intro located hl
  obtain ⟨middle, hm, hx⟩ := hx located hl
  obtain ⟨p, middle, rfl, hmid⟩ := exists_of_map_cons hm
  obtain ⟨rest, hr, hy⟩ := hy middle hmid
  refine ⟨rest, hr, ?_⟩
  simp only [Source.chain, hx, ok_bind, List.length_cons, chainFrom, peek, ht, List.tail_cons, hy]
  unfold chainFrom
  split
  · rfl
  · rw [peek_eq_next hr, hop]

end Reads

/-- Where one reader was let in a level deeper, every reader is. -/
theorem nested_of_ok {limit : Option Nat} {depth : Nat} {inner : Nat → Reader α}
    {located rest : List Located} {x : α}
    (h : nested limit depth inner located = .ok (x, rest)) (other : Nat → Reader β) :
    nested limit depth other = other (depth + 1) := by
  cases limit with
  | none => rfl
  | some most =>
    unfold nested at h ⊢
    dsimp only at h ⊢
    split at h
    · cases h
    · next hdepth => simp only [hdepth, if_false]

theorem exists_of_expectMark {m : Mark} {wanted : String} {located rest : List Located}
    (h : expectMark m wanted located = .ok rest) : ∃ p, located = ⟨.mark m, p⟩ :: rest := by
  unfold expectMark at h
  split at h
  · next m' p behind =>
    split at h
    · next hm =>
      cases h
      exact ⟨p, by rw [hm]⟩
    · cases h
  · cases h

theorem parens_append (ts more : List Token) :
    parens ts ++ more = .mark .lparen :: (ts ++ .mark .rparen :: more) := by
  rw [parens, List.cons_append, List.append_assoc]
  rfl

theorem braces_append (ts more : List Token) :
    braces ts ++ more = .mark .lbrace :: (ts ++ .mark .rbrace :: more) := by
  rw [braces, List.cons_append, List.append_assoc]
  rfl

theorem expectMark_of_map {m : Mark} (wanted : String) {located : List Located} {ts : List Token}
    (h : located.map (·.token) = .mark m :: ts) :
    ∃ rest, rest.map (·.token) = ts ∧ expectMark m wanted located = .ok rest := by
  obtain ⟨p, rest, rfl, hr⟩ := exists_of_map_cons h
  exact ⟨rest, hr, by simp [expectMark]⟩

/-- A reader with room for all its tokens reads what it reads with any room. -/
theorem reads_of_room (reader : Nat → Reader α) {ts more : List Token} {x : α}
    (h : ∀ room, ts.length < room → Reads (reader room) ts more x) :
    Reads (fun located => reader (located.length + 1) located) ts more x := by
  intro located hl
  have hlength : ts.length < located.length + 1 := by
    rw [← hl, List.length_map]
    exact Nat.lt_succ_self _
  exact h _ hlength located hl

end Policy.Source
