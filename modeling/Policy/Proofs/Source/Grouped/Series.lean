import Policy.Proofs.Source.Reads

namespace Policy.Source

/-! ## Operands with signs between them -/

/-- A first operand, and the ones behind it with the sign in front of each. -/
structure Series (ι α : Type) where
  first : α
  rest : List (ι × α)

namespace Series

variable {ι α β : Type}

def one (a : α) : Series ι α := ⟨a, []⟩

/-- The series with one more operand in front. -/
def more (a : α) (sign : ι) (s : Series ι α) : Series ι α := ⟨a, (sign, s.first) :: s.rest⟩

def map (f : α → β) (s : Series ι α) : Series ι β :=
  ⟨f s.first, s.rest.map fun p => (p.1, f p.2)⟩

/-- All operands joined from the left, whatever the signs are. -/
def joined (join : ι → α → α → α) (s : Series ι α) : α :=
  s.rest.foldl (fun left p => join p.1 left p.2) s.first

/-- The operands that tight signs bind to what stands in front of the list, and the runs behind
them. Each run begins behind a sign that is not tight and goes on up to the next such sign. -/
def runsBehind (tight : ι → Bool) : List (ι × α) → List (ι × α) × List (ι × Series ι α)
  | [] => ([], [])
  | (sign, a) :: rest =>
    let (bound, runs) := runsBehind tight rest
    if tight sign then ((sign, a) :: bound, runs) else ([], (sign, ⟨a, bound⟩) :: runs)

/-- The maximal runs of operands with tight signs between them, as operands of the other signs. -/
def runs (tight : ι → Bool) (s : Series ι α) : Series ι (Series ι α) :=
  ⟨⟨s.first, (runsBehind tight s.rest).1⟩, (runsBehind tight s.rest).2⟩

/-- How signs of two strengths group: each run is joined from the left, and so are the results. -/
def grouped (tight : ι → Bool) (join : ι → α → α → α) (s : Series ι α) : α :=
  ((s.runs tight).map (joined join)).joined join

example : grouped (· = '*') (fun sign l r => "(" ++ l ++ sign.toString ++ r ++ ")")
    ⟨"a", [('-', "b"), ('*', "c"), ('*', "d"), ('-', "e")]⟩ = "((a-((b*c)*d))-e)" := by
  decide +kernel

theorem joined_map (f : α → β) (join : ι → β → β → β) (s : Series ι α) :
    (s.map f).joined join = s.rest.foldl (fun left p => join p.1 left (f p.2)) (f s.first) := by
  rw [joined, map, List.foldl_map]

theorem runsBehind_map (tight : ι → Bool) (f : α → β) (rest : List (ι × α)) :
    runsBehind tight (rest.map fun p => (p.1, f p.2)) =
      ((runsBehind tight rest).1.map fun p => (p.1, f p.2),
        (runsBehind tight rest).2.map fun p => (p.1, p.2.map f)) := by
  induction rest with
  | nil => rfl
  | cons p rest ih =>
    simp only [List.map_cons, runsBehind, ih]
    split
    · rfl
    · rfl

theorem runs_map (tight : ι → Bool) (f : α → β) (s : Series ι α) :
    (s.map f).runs tight = (s.runs tight).map (map f) := by
  simp only [runs, map, runsBehind_map]

/-- What stands in the operands has no part in how they are grouped. -/
theorem grouped_map (tight : ι → Bool) (f : α → β) (join : ι → β → β → β) (s : Series ι α) :
    (s.map f).grouped tight join =
      ((s.runs tight).map fun run => (run.map f).joined join).joined join := by
  rw [grouped, runs_map, joined_map, joined_map, map, List.foldl_map]

theorem tight_runsBehind (tight : ι → Bool) (rest : List (ι × α)) :
    (∀ p ∈ (runsBehind tight rest).1, tight p.1 = true) ∧
      ∀ p ∈ (runsBehind tight rest).2, tight p.1 = false ∧ ∀ q ∈ p.2.rest, tight q.1 = true := by
  induction rest with
  | nil => simp [runsBehind]
  | cons p rest ih =>
    obtain ⟨hbound, hruns⟩ := ih
    by_cases hp : tight p.1 = true
    · simp only [runsBehind, hp, if_true]
      exact ⟨List.forall_mem_cons.mpr ⟨hp, hbound⟩, hruns⟩
    · have hloose : tight p.1 = false := Bool.eq_false_iff.mpr hp
      simp only [runsBehind, hloose, Bool.false_eq_true, if_false]
      exact ⟨by simp, List.forall_mem_cons.mpr ⟨⟨hloose, hbound⟩, hruns⟩⟩

/-! ### Tokens of a series -/

section Tokens

variable (spell : α → List Token) (mark : ι → Token)

/-- The operands of a list with their signs in front of them. -/
def tokensBehind (rest : List (ι × α)) : List Token :=
  rest.flatMap fun p => mark p.1 :: spell p.2

def tokens (s : Series ι α) : List Token := spell s.first ++ tokensBehind spell mark s.rest

theorem tokensBehind_cons (p : ι × α) (rest : List (ι × α)) :
    tokensBehind spell mark (p :: rest) =
      mark p.1 :: (spell p.2 ++ tokensBehind spell mark rest) :=
  List.flatMap_cons

theorem tokens_more (a : α) (sign : ι) (s : Series ι α) :
    (s.more a sign).tokens spell mark = spell a ++ mark sign :: s.tokens spell mark := by
  rw [tokens, more, tokensBehind_cons]
  rfl

theorem length_le_tokensBehind (rest : List (ι × α)) :
    rest.length ≤ (tokensBehind spell mark rest).length := by
  induction rest with
  | nil => exact Nat.le_refl _
  | cons p rest ih =>
    rw [tokensBehind_cons, List.length_cons, List.length_cons, List.length_append]
    omega

/-- Runs are parts of the series, one behind the other. -/
theorem tokensBehind_runsBehind (tight : ι → Bool) (rest : List (ι × α)) :
    tokensBehind spell mark (runsBehind tight rest).1 ++
        tokensBehind (tokens spell mark) mark (runsBehind tight rest).2 =
      tokensBehind spell mark rest := by
  induction rest with
  | nil => rfl
  | cons p rest ih =>
    rw [tokensBehind_cons, ← ih]
    simp only [runsBehind]
    split
    · rw [tokensBehind_cons, List.cons_append, List.append_assoc]
    · rw [tokensBehind_cons, tokens, List.append_assoc]
      rfl

theorem tokens_runs (tight : ι → Bool) (s : Series ι α) :
    (s.runs tight).tokens (tokens spell mark) mark = s.tokens spell mark := by
  rw [tokens.eq_def spell, ← tokensBehind_runsBehind spell mark tight s.rest, ← List.append_assoc]
  rfl

/-! ### Operands that stand well where they are -/

/-- Each operand behind a sign stands well in front of the tokens that follow it. -/
def EachBehind (stands : α → List Token → Prop) (behind : List Token) : List (ι × α) → Prop
  | [] => True
  | p :: rest => stands p.2 (tokensBehind spell mark rest ++ behind) ∧ EachBehind stands behind rest

/-- Each operand of the series stands well in front of the tokens that follow it. -/
structure Each (stands : α → List Token → Prop) (behind : List Token) (s : Series ι α) : Prop where
  first : stands s.first (tokensBehind spell mark s.rest ++ behind)
  rest : EachBehind spell mark stands behind s.rest

variable {spell mark} {stands : α → List Token → Prop} {behind : List Token}

theorem each_one {a : α} (h : stands a behind) : Each spell mark stands behind (one a) :=
  ⟨h, trivial⟩

theorem each_more {a : α} {sign : ι} {s : Series ι α}
    (ha : stands a (mark sign :: (s.tokens spell mark ++ behind)))
    (hs : Each spell mark stands behind s) : Each spell mark stands behind (s.more a sign) where
  first := by
    rw [more, tokensBehind_cons]
    exact ha
  rest := ⟨hs.first, hs.rest⟩

/-- Where each operand stands well, so do the operands of each run. -/
theorem eachBehind_runsBehind (tight : ι → Bool) {rest : List (ι × α)}
    (h : EachBehind spell mark stands behind rest) :
    EachBehind spell mark stands
        (tokensBehind (tokens spell mark) mark (runsBehind tight rest).2 ++ behind)
        (runsBehind tight rest).1 ∧
      EachBehind (tokens spell mark) mark (fun run after => Each spell mark stands after run) behind
        (runsBehind tight rest).2 := by
  induction rest with
  | nil => exact ⟨trivial, trivial⟩
  | cons p rest ih =>
    obtain ⟨hp, hrest⟩ := h
    obtain ⟨hbound, hruns⟩ := ih hrest
    rw [← tokensBehind_runsBehind spell mark tight rest, List.append_assoc] at hp
    simp only [runsBehind]
    split
    · exact ⟨⟨hp, hbound⟩, hruns⟩
    · exact ⟨trivial, ⟨hp, hbound⟩, hruns⟩

theorem Each.runs {s : Series ι α} (h : Each spell mark stands behind s) (tight : ι → Bool) :
    Each (tokens spell mark) mark (fun run after => Each spell mark stands after run) behind
      (s.runs tight) := by
  obtain ⟨hbound, hruns⟩ := eachBehind_runsBehind tight h.rest
  have hfirst := h.first
  rw [← tokensBehind_runsBehind spell mark tight s.rest, List.append_assoc] at hfirst
  exact ⟨⟨hfirst, hbound⟩, hruns⟩

end Tokens

end Series

/-! ## Chains of operands -/

section Chain

variable {ι α β : Type} {spell : α → List Token} {mark : ι → Token} {operand : Reader β}
  {value : α → β} {join : ι → β → β → β} {op outer : Token → Option (β → β → β)}
  {behind : List Token}

/-- The reader finds the operand in front of these tokens. -/
abbrev FoundBy (operand : Reader β) (spell : α → List Token) (value : α → β) (a : α)
    (behind : List Token) : Prop :=
  Reads operand (spell a ++ behind) behind (value a)

/-- By induction on the operands behind the first one, each of which takes one of the room. -/
theorem reads_chainFrom_series {rest : List (ι × α)}
    (hrest : Series.EachBehind spell mark (FoundBy operand spell value) behind rest)
    (hop : ∀ p ∈ rest, op (mark p.1) = some (join p.1)) (hbehind : op (next behind) = none)
    {room : Nat} (hroom : rest.length ≤ room) (left : β) :
    Reads (chainFrom operand op room left) (Series.tokensBehind spell mark rest ++ behind) behind
      (rest.foldl (fun left p => join p.1 left (value p.2)) left) := by
  induction rest generalizing room left with
  | nil =>
    intro located hl
    refine ⟨located, hl, ?_⟩
    cases room with
    | zero => rfl
    | succ room =>
      have hpeek : op (peek located) = none := by
        rw [peek_eq_next hl]
        exact hbehind
      simp only [chainFrom, hpeek, List.foldl_nil]
  | cons p rest ih =>
    obtain ⟨hp, hrest⟩ := hrest
    obtain ⟨hjoin, hop⟩ := List.forall_mem_cons.mp hop
    rw [List.length_cons] at hroom
    obtain ⟨room, rfl⟩ : ∃ k, room = k + 1 := ⟨room - 1, by omega⟩
    intro located hl
    rw [Series.tokensBehind_cons, List.cons_append, List.append_assoc] at hl
    obtain ⟨q, after, rfl, hafter⟩ := exists_of_map_cons hl
    obtain ⟨middle, hmiddle, hright⟩ := hp after hafter
    have hgoes := ih hrest hop (Nat.le_of_succ_le_succ hroom) (join p.1 left (value p.2))
    obtain ⟨last, hlast, hx⟩ := hgoes middle hmiddle
    refine ⟨last, hlast, ?_⟩
    simp only [chainFrom, peek, hjoin, List.tail_cons, hright, ok_bind, hx, List.foldl_cons]

/-- A chain joins its operands from the left. -/
theorem reads_chain_series {s : Series ι α}
    (hs : s.Each spell mark (FoundBy operand spell value) behind)
    (hop : ∀ p ∈ s.rest, op (mark p.1) = some (join p.1)) (hbehind : op (next behind) = none) :
    Reads (chain operand op) (s.tokens spell mark ++ behind) behind
      ((s.map value).joined join) := by
  intro located hl
  rw [Series.tokens, List.append_assoc] at hl
  obtain ⟨middle, hmiddle, hfirst⟩ := hs.first located hl
  have hroom : s.rest.length ≤ middle.length := by
    have hlength := congrArg List.length hmiddle
    have hle := Series.length_le_tokensBehind spell mark s.rest
    rw [List.length_map, List.length_append] at hlength
    omega
  obtain ⟨rest, hr, hx⟩ :=
    reads_chainFrom_series hs.rest hop hbehind hroom (value s.first) middle hmiddle
  refine ⟨rest, hr, ?_⟩
  simp only [chain, hfirst, ok_bind, hx, Series.joined_map]

/-- Which signs the operators of two chains, one inside of the other, stand for. -/
structure Strengths (mark : ι → Token) (tight : ι → Bool) (join : ι → β → β → β)
    (inner outer : Token → Option (β → β → β)) : Prop where
  within : ∀ sign, tight sign = true → inner (mark sign) = some (join sign)
  between : ∀ sign, tight sign = false →
    inner (mark sign) = none ∧ outer (mark sign) = some (join sign)

variable {tight : ι → Bool}

variable (spell) in
/-- No tight sign goes on with a run, neither behind nor in front of the next run. -/
theorem Strengths.none_next (h : Strengths mark tight join op outer)
    (hbehind : op (next behind) = none) {rest : List (ι × Series ι α)}
    (hrest : ∀ p ∈ rest, tight p.1 = false) :
    op (next (Series.tokensBehind (Series.tokens spell mark) mark rest ++ behind)) = none := by
  cases rest with
  | nil => exact hbehind
  | cons p rest =>
    have hloose := (List.forall_mem_cons.mp hrest).1
    rw [Series.tokensBehind_cons]
    exact (h.between p.1 hloose).1

/-- Runs are found by the inner chain. -/
theorem found_runsBehind (h : Strengths mark tight join op outer)
    (hbehind : op (next behind) = none) {rest : List (ι × Series ι α)}
    (hruns : ∀ p ∈ rest, tight p.1 = false ∧ ∀ q ∈ p.2.rest, tight q.1 = true)
    (hrest : Series.EachBehind (Series.tokens spell mark) mark
      (fun run after => run.Each spell mark (FoundBy operand spell value) after) behind rest) :
    Series.EachBehind (Series.tokens spell mark) mark
      (FoundBy (chain operand op) (Series.tokens spell mark) fun run => (run.map value).joined join)
      behind rest := by
  induction rest with
  | nil => trivial
  | cons p rest ih =>
    obtain ⟨hp, hrest⟩ := hrest
    obtain ⟨⟨-, htight⟩, hruns⟩ := List.forall_mem_cons.mp hruns
    have hnone := h.none_next spell hbehind fun q hq => (hruns q hq).1
    refine ⟨?_, ih hruns hrest⟩
    exact reads_chain_series hp (fun q hq => h.within q.1 (htight q hq)) hnone

/-- A chain of chains groups its operands by the strengths of the signs between them. -/
theorem reads_chains (h : Strengths mark tight join op outer) {s : Series ι α}
    (hs : s.Each spell mark (FoundBy operand spell value) behind)
    (hop : op (next behind) = none) (houter : outer (next behind) = none) :
    Reads (chain (chain operand op) outer) (s.tokens spell mark ++ behind) behind
      ((s.map value).grouped tight join) := by
  obtain ⟨htight, hloose⟩ := Series.tight_runsBehind tight s.rest
  have hruns := hs.runs tight
  have hnone := h.none_next spell hop fun p hp => (hloose p hp).1
  have hfirst : FoundBy (chain operand op) (Series.tokens spell mark)
      (fun run => (run.map value).joined join) (s.runs tight).first _ :=
    reads_chain_series hruns.first (fun p hp => h.within p.1 (htight p hp)) hnone
  have hfound : (s.runs tight).Each (Series.tokens spell mark) mark
      (FoundBy (chain operand op) (Series.tokens spell mark) fun run => (run.map value).joined join)
      behind :=
    ⟨hfirst, found_runsBehind h hop hloose hruns.rest⟩
  have hread := reads_chain_series hfound (fun p hp => (h.between p.1 (hloose p hp).1).2) houter
  rw [Series.tokens_runs] at hread
  rw [Series.grouped_map]
  exact hread

end Chain

end Policy.Source
