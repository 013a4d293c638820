import Policy.Proofs.Source.Reads

namespace Policy.Source

variable {α : Type}

/-- A text is read to its end where its tokens are. -/
theorem readWhole_of_reads {reader : Reader α} {text : String} {located : List Located}
    {ts : List Token} {x : α} (hscan : scan text = .ok located)
    (hl : located.map (·.token) = ts) (h : Reads reader ts [.eof] x) :
    readWhole reader text = .ok x := by
  obtain ⟨rest, hr, hx⟩ := h located hl
  have hpeek : peek rest = .eof := peek_eq_next hr
  simp only [readWhole, hscan, ok_bind, hx, hpeek, if_true]
  rfl

/-! ## Definitions one after the other -/

/-- The reader finds each of the definitions in front of those behind it. -/
inductive ReadsEach (reader : Reader α) (more : List Token) : List (List Token) → List α → Prop where
  | nil : ReadsEach reader more [] []
  | cons {ts : List Token} {x : α} {fronts : List (List Token)} {xs : List α} :
    Reads reader (ts ++ (fronts.flatten ++ more)) (fronts.flatten ++ more) x →
    ReadsEach reader more fronts xs → ReadsEach reader more (ts :: fronts) (x :: xs)

/-- The tokens are those of an attribute: a name and a sign stand in front of a value. -/
def Defines (ts : List Token) : Prop :=
  ∃ name value, ts = .name name :: .mark .eq :: value ∧ value ≠ []

theorem Defines.ne_nil {ts : List Token} (h : Defines ts) : ts ≠ [] := by
  obtain ⟨name, value, rfl, -⟩ := h
  exact List.cons_ne_nil _ _

section Definitions

variable {limit : Option Nat} {more : List Token} {fronts : List (List Token)}

theorem startsAttribute_of_defines {ts more : List Token} (h : Defines ts) {located : List Located}
    (hl : located.map (·.token) = ts ++ more) : startsAttribute located = true := by
  obtain ⟨name, value, rfl, -⟩ := h
  obtain ⟨p, behind, rfl, hbehind⟩ := exists_of_map_cons hl
  obtain ⟨q, rest, rfl, -⟩ := exists_of_map_cons hbehind
  rfl

theorem startsAttribute_of_keyword {located : List Located} {k : Keyword}
    (h : peek located = .keyword k) : startsAttribute located = false := by
  unfold startsAttribute
  split
  · cases h
  · rfl

theorem reads_attributes {as : List (Attribute String)}
    (h : ReadsEach (readAttribute limit) more fronts as) (hfronts : ∀ ts ∈ fronts, Defines ts)
    {k : Keyword} (hmore : next more = .keyword k) {room : Nat} (hroom : fronts.length ≤ room) :
    Reads (readAttributes limit room) (fronts.flatten ++ more) more as := by
  induction h generalizing room with
  | nil =>
    intro located hl
    refine ⟨located, hl, ?_⟩
    have hpeek : peek located = .keyword k := (peek_eq_next hl).trans hmore
    cases room with
    | zero => rfl
    | succ room => simp [readAttributes, startsAttribute_of_keyword hpeek]
  | cons hread _ ih =>
    obtain ⟨hfirst, hrest⟩ := List.forall_mem_cons.mp hfronts
    obtain ⟨room, rfl⟩ : ∃ k, room = k + 1 := ⟨room - 1, by simp at hroom; omega⟩
    rw [List.flatten_cons, List.append_assoc]
    intro located hl
    have hstarts := startsAttribute_of_defines hfirst hl
    obtain ⟨middle, hm, hx⟩ := hread located hl
    obtain ⟨rest, hr, hy⟩ := ih hrest (Nat.le_of_succ_le_succ hroom) middle hm
    refine ⟨rest, hr, ?_⟩
    simp only [readAttributes, hstarts, if_true, hx, ok_bind, hy]
    rfl

theorem reads_rules {rs : List (Rule String)} (h : ReadsEach (readRule limit 0) [.eof] fronts rs)
    (hfronts : ∀ ts ∈ fronts, ∃ k, next ts = .keyword k) {room : Nat}
    (hroom : fronts.length ≤ room) :
    Reads (readRules limit room) (fronts.flatten ++ [.eof]) [.eof] rs := by
  induction h generalizing room with
  | nil =>
    intro located hl
    refine ⟨located, hl, ?_⟩
    have hpeek : peek located = .eof := peek_eq_next hl
    cases room with
    | zero => rfl
    | succ room => simp only [readRules, hpeek, if_true]
  | @cons ts r fronts rs hread _ ih =>
    obtain ⟨⟨k, hk⟩, hrest⟩ := List.forall_mem_cons.mp hfronts
    obtain ⟨room, rfl⟩ : ∃ k, room = k + 1 := ⟨room - 1, by simp at hroom; omega⟩
    rw [List.flatten_cons, List.append_assoc]
    intro located hl
    have hpeek : peek located ≠ .eof := by
      rw [peek_eq_next hl, next_append hk]
      exact Token.noConfusion
    obtain ⟨middle, hm, hx⟩ := hread located hl
    obtain ⟨rest, hr, hy⟩ := ih hrest (Nat.le_of_succ_le_succ hroom) middle hm
    refine ⟨rest, hr, ?_⟩
    simp only [readRules, hpeek, if_false, hx, ok_bind, hy]
    rfl

theorem length_le_flatten (h : ∀ ts ∈ fronts, ts ≠ []) : fronts.length ≤ fronts.flatten.length := by
  induction fronts with
  | nil => exact Nat.le_refl _
  | cons ts fronts ih =>
    obtain ⟨hts, hfronts⟩ := List.forall_mem_cons.mp h
    have hpos := List.length_pos_iff.mpr hts
    have hrest := ih hfronts
    rw [List.flatten_cons, List.length_append, List.length_cons]
    omega

/-- Attributes and then rules, to the end of the tokens. -/
theorem reads_definitions {attributes rules : List (List Token)} {as : List (Attribute String)}
    {rs : List (Rule String)}
    (has : ReadsEach (readAttribute limit) (rules.flatten ++ [.eof]) attributes as)
    (hrs : ReadsEach (readRule limit 0) [.eof] rules rs)
    (hattributes : ∀ ts ∈ attributes, Defines ts)
    (hrules : ∀ ts ∈ rules, ∃ k, next ts = .keyword k) (hne : rs ≠ []) :
    Reads (readRuleSet limit) (attributes.flatten ++ (rules.flatten ++ [.eof])) [.eof] ⟨as, rs⟩ := by
  have hsolid : ∀ ts ∈ rules, ts ≠ [] := by
    rintro ts hts rfl
    obtain ⟨k, hk⟩ := hrules [] hts
    cases hk
  obtain ⟨k, hk⟩ : ∃ k, next (rules.flatten ++ [.eof]) = .keyword k := by
    cases hrs with
    | nil => exact absurd rfl hne
    | cons _ _ =>
      obtain ⟨⟨k, hk⟩, -⟩ := List.forall_mem_cons.mp hrules
      rw [List.flatten_cons, List.append_assoc]
      exact ⟨k, next_append hk _⟩
  intro located hl
  have hroom : attributes.length ≤ located.length := by
    have hlength := congrArg List.length hl
    have hle := length_le_flatten fun ts hts => (hattributes ts hts).ne_nil
    rw [List.length_map, List.length_append] at hlength
    omega
  obtain ⟨middle, hm, hx⟩ := reads_attributes has hattributes hk hroom located hl
  have hroom : rules.length ≤ middle.length := by
    have hlength := congrArg List.length hm
    have hle := length_le_flatten hsolid
    rw [List.length_map, List.length_append] at hlength
    omega
  obtain ⟨rest, hr, hy⟩ := reads_rules hrs hrules hroom middle hm
  have hempty : rs.isEmpty = false := by
    rw [List.isEmpty_eq_false_iff]
    exact hne
  refine ⟨rest, hr, ?_⟩
  simp only [readRuleSet, hx, ok_bind, hy, hempty, Bool.false_eq_true, if_false]
  rfl

end Definitions

end Policy.Source
