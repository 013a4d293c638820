import Policy.Proofs.Source.Progress

namespace Policy.Source

variable {α β : Type}

/-! ## Outcomes under two limits

A reader under a limit is compared with the same reader under a larger one, or under none. -/

/-- Where the limit lets a level open, the larger one does. -/
def Allows (larger limit : Option Nat) : Prop := ∀ most ∈ larger, ∃ less ∈ limit, less ≤ most

theorem allows_none (limit : Option Nat) : Allows none limit := fun _ h => nomatch h

def TooDeep (limit : Option Nat) (r : Refusal) : Prop := ∃ most ∈ limit, r.cause = .tooDeep most

/-- The outcome is the other one, or the refusal of a level. -/
def Held (limit : Option Nat) (x y : Except Refusal α) : Prop :=
  x = y ∨ ∃ r, x = .error r ∧ TooDeep limit r

namespace Held

variable {limit : Option Nat} {x y : Except Refusal α} {f g : α → Except Refusal β}

theorem refl (x : Except Refusal α) : Held limit x x := .inl rfl

theorem bind (h : Held limit x y) (hn : ∀ a, y = .ok a → Held limit (f a) (g a)) :
    Held limit (x >>= f) (y >>= g) := by
  rcases h with rfl | ⟨r, rfl, hr⟩
  · cases x with
    | error r => exact refl _
    | ok a => exact hn a rfl
  · exact .inr ⟨r, rfl, hr⟩

end Held

/-- The outcome succeeds only as the other one does. Where it does not while the other one
succeeds, its refusal has a property. -/
structure Limited (P : Refusal → Prop) (x y : Except Refusal α) : Prop where
  kept : ∀ a, x = .ok a → y = .ok a
  refused : ∀ a, y = .ok a → x = .ok a ∨ ∃ r, x = .error r ∧ P r

namespace Limited

variable {P Q : Refusal → Prop} {x y : Except Refusal α} {f g : α → Except Refusal β}

theorem refl (x : Except Refusal α) : Limited P x x := ⟨fun _ => id, fun _ => .inl⟩

theorem of_error {r : Refusal} (h : x = .error r) (hr : P r) : Limited P x y where
  kept a ha := by
    rw [h] at ha
    cases ha
  refused _ _ := .inr ⟨r, h, hr⟩

theorem of_held {limit : Option Nat} (h : Held limit x y) (hP : ∀ r, TooDeep limit r → P r) :
    Limited P x y := by
  rcases h with rfl | ⟨r, hr, hdeep⟩
  · exact refl x
  · exact of_error hr (hP r hdeep)

theorem mono (h : Limited P x y) (hPQ : ∀ r, P r → Q r) : Limited Q x y where
  kept := h.kept
  refused a ha := by
    rcases h.refused a ha with hx | ⟨r, hr, hP⟩
    · exact .inl hx
    · exact .inr ⟨r, hr, hPQ r hP⟩

theorem bind (h : Limited P x y) (hn : ∀ a, y = .ok a → Limited P (f a) (g a)) :
    Limited P (x >>= f) (y >>= g) where
  kept b hb := by
    obtain ⟨a, ha, hb⟩ := bind_ok_iff.mp hb
    have hy := h.kept a ha
    rw [hy, ok_bind]
    exact (hn a hy).kept b hb
  refused b hb := by
    obtain ⟨a, ha, hb⟩ := bind_ok_iff.mp hb
    rcases h.refused a ha with hx | ⟨r, hr, hP⟩
    · rw [hx, ok_bind]
      exact (hn a ha).refused b hb
    · rw [hr]
      exact .inr ⟨r, rfl, hP⟩

end Limited

/-! ## Levels -/

section Nested

variable {limit larger : Option Nat} {depth : Nat} {inner other : Nat → Reader α}
  {ts : List Located}

/-- The limit refuses the level, or it opens under both limits. -/
theorem nested_cases (hl : Allows larger limit) (inner other : Nat → Reader α)
    (ts : List Located) :
    (∃ r, nested limit depth inner ts = .error r ∧ TooDeep limit r) ∨
      (nested limit depth inner ts = inner (depth + 1) ts ∧
        nested larger depth other ts = other (depth + 1) ts) := by
  have hother (hdepth : ∀ less ∈ limit, depth < less) :
      nested larger depth other ts = other (depth + 1) ts := by
    unfold nested
    split
    · next most =>
      obtain ⟨less, hless, hle⟩ := hl most rfl
      have hlt := hdepth less hless
      rw [if_neg (by omega)]
    · rfl
  cases limit with
  | none => exact .inr ⟨rfl, hother fun _ hless => nomatch hless⟩
  | some most =>
    by_cases hdepth : most ≤ depth
    · refine .inl ⟨⟨place ts, .tooDeep most⟩, ?_, most, rfl, rfl⟩
      simp only [nested, hdepth, if_true]
      rfl
    · refine .inr ⟨by simp only [nested, hdepth, if_false], hother fun less hless => ?_⟩
      cases hless
      exact Nat.lt_of_not_le hdepth

theorem held_nested (hl : Allows larger limit)
    (h : Held limit (inner (depth + 1) ts) (other (depth + 1) ts)) :
    Held limit (nested limit depth inner ts) (nested larger depth other ts) := by
  rcases nested_cases hl inner other ts with hdeep | ⟨hinner, hother⟩
  · exact .inr hdeep
  · rwa [hinner, hother]

theorem limited_nested {P : Refusal → Prop} (hl : Allows larger limit)
    (hP : ∀ r, TooDeep limit r → P r)
    (h : Limited P (inner (depth + 1) ts) (other (depth + 1) ts)) :
    Limited P (nested limit depth inner ts) (nested larger depth other ts) := by
  rcases nested_cases hl inner other ts with ⟨r, hr, hdeep⟩ | ⟨hinner, hother⟩
  · exact .of_error hr (hP r hdeep)
  · rwa [hinner, hother]

end Nested

/-! ## Terms

A term is refused for its depth only. -/

/-- Under the limit, the reader does what the other one does, or refuses a level. -/
def Bounded (limit : Option Nat) (reader other : Reader α) : Prop :=
  ∀ ts, Held limit (reader ts) (other ts)

section Bounded

variable {limit larger : Option Nat} {operand other : Reader α} {op : Token → Option (α → α → α)}

theorem Bounded.chainFrom (h : Bounded limit operand other) (room : Nat) (left : α) :
    Bounded limit (chainFrom operand op room left) (Source.chainFrom other op room left) := by
  induction room generalizing left with
  | zero => exact fun _ => .refl _
  | succ room ih =>
    intro ts
    simp only [Source.chainFrom]
    split
    · exact .refl _
    · exact (h ts.tail).bind fun _ _ => ih _ _

theorem Bounded.chain (h : Bounded limit operand other) :
    Bounded limit (chain operand op) (Source.chain other op) :=
  fun ts => (h ts).bind fun _ _ => h.chainFrom _ _ _

variable {inner inner' : Reader (Term String)}

theorem bounded_readAtom (h : Bounded limit inner inner') :
    Bounded limit (readAtom inner) (readAtom inner') := by
  intro ts
  unfold readAtom
  split
  · exact .refl _
  · exact .refl _
  · exact .refl _
  · exact (h _).bind fun _ _ => .refl _
  · exact (h _).bind fun _ _ => .refl _
  · exact (h _).bind fun _ _ => .refl _
  · exact .refl _
  · exact .refl _
  · exact .refl _
  · exact .refl _

theorem bounded_readTermOver (h : Bounded limit inner inner') :
    Bounded limit (readTermOver inner) (readTermOver inner') := by
  have hsum : Bounded limit (readSum inner) (readSum inner') := (bounded_readAtom h).chain.chain
  intro ts
  refine (hsum ts).bind fun found _ => ?_
  dsimp only
  split
  · exact (hsum _).bind fun _ _ => .refl _
  · exact .refl _

end Bounded

section Terms

variable {limit larger : Option Nat} (hl : Allows larger limit)

include hl

theorem bounded_readTermAt (room depth : Nat) :
    Bounded limit (readTermAt limit room depth) (readTermAt larger room depth) := by
  induction room generalizing depth with
  | zero => exact fun _ => .refl _
  | succ room ih => exact bounded_readTermOver fun ts => held_nested hl (ih (depth + 1) ts)

theorem bounded_readTerm (depth : Nat) :
    Bounded limit (readTerm limit depth) (readTerm larger depth) :=
  fun ts => bounded_readTermAt hl (ts.length + 1) depth ts

theorem bounded_readComparison (depth : Nat) :
    Bounded limit (readComparison (readTerm limit depth))
      (readComparison (readTerm larger depth)) := by
  intro ts
  refine (bounded_readTerm hl depth ts).bind fun found _ => ?_
  dsimp only
  split
  · exact .refl _
  · exact (bounded_readTerm hl depth _).bind fun _ _ => .refl _

end Terms

end Policy.Source
