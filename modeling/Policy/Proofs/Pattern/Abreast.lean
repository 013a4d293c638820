import Mathlib.Data.List.TakeWhile
import Policy.Pattern

namespace Policy.Pattern

/-! ## Two readers, one of which has more text behind -/

/-- What stands behind a pattern: the end of the group that it is put into, and of the text. -/
def closing : List Char := [')', '\\', 'z']

/-- There is a `#` that no line break follows. -/
def EndsInHash (cs : List Char) : Prop := ∃ front behind, cs = front ++ '#' :: behind ∧ '\n' ∉ behind

theorem EndsInHash.of_suffix {l cs : List Char} (h : EndsInHash l) (hs : l <:+ cs) :
    EndsInHash cs := by
  obtain ⟨front, rfl⟩ := hs
  obtain ⟨middle, behind, rfl, hb⟩ := h
  exact ⟨front ++ middle, behind, by rw [List.append_assoc], hb⟩

theorem EndsInHash.cons {cs : List Char} (h : EndsInHash cs) (x : Char) : EndsInHash (x :: cs) :=
  h.of_suffix (List.suffix_cons x cs)

/-- The places of two readers, the second of which has the closing text behind it. A comment that
is left open takes it over the closing text. -/
inductive Abreast (hash : Prop) : List Char → List Char → Prop
  | before (cs : List Char) (h : EndsInHash cs → hash) : Abreast hash cs (cs ++ closing)
  | swallowed (h : hash) : Abreast hash [] []

/-- Where two readers have come to from the places `cs` and `cs'`. -/
structure Place (hash : Prop) (cs cs' l l' : List Char) : Prop where
  suffix : l <:+ cs
  suffix' : l' <:+ cs'
  abreast : Abreast hash l l'

namespace Place

variable {hash : Prop} {cs cs' l l' r r' : List Char} {x : Char}

theorem refl (h : Abreast hash l l') : Place hash l l' l l' :=
  ⟨List.suffix_refl l, List.suffix_refl l', h⟩

theorem trans (p : Place hash cs cs' l l') (q : Place hash l l' r r') : Place hash cs cs' r r' :=
  ⟨q.suffix.trans p.suffix, q.suffix'.trans p.suffix', q.abreast⟩

/-- Both readers see the same character, unless they are at the end of the first text. -/
theorem cases (p : Place hash cs cs' l l') :
    (l = [] ∧ l' = closing) ∨ (l = [] ∧ l' = []) ∨
      ∃ x r r', l = x :: r ∧ l' = x :: r' ∧ Place hash cs cs' r r' := by
  obtain ⟨hs, hs', h⟩ := p
  cases h with
  | before _ h =>
    cases l with
    | nil => exact .inl ⟨rfl, rfl⟩
    | cons x r =>
      exact .inr (.inr ⟨x, r, _, rfl, rfl, (List.suffix_cons x r).trans hs,
        (List.suffix_cons x _).trans hs', .before r fun hr => h (hr.cons x)⟩)
  | swallowed h => exact .inr (.inl ⟨rfl, rfl⟩)

/-- Both readers see a given character or neither does, unless it is the parenthesis. -/
theorem either (p : Place hash cs cs' l l') (hx : x ≠ ')') :
    (∃ r r', l = x :: r ∧ l' = x :: r' ∧ Place hash cs cs' r r') ∨
      l.head? ≠ some x ∧ l'.head? ≠ some x := by
  obtain ⟨rfl, rfl⟩ | ⟨rfl, rfl⟩ | ⟨y, r, r', rfl, rfl, q⟩ := p.cases
  · exact .inr ⟨by simp, by simpa [closing] using Ne.symm hx⟩
  · exact .inr ⟨by simp, by simp⟩
  · by_cases hy : y = x
    · subst hy
      exact .inl ⟨r, r', rfl, rfl, q⟩
    · exact .inr ⟨by simpa using hy, by simpa using hy⟩

theorem length_le (p : Place hash cs cs' l l') : l.length ≤ cs.length ∧ l'.length ≤ cs'.length :=
  ⟨p.suffix.length_le, p.suffix'.length_le⟩

end Place

/-! ## Blanks and comments -/

theorem skipBlanks_cons (c : Char) (cs : List Char) : skipBlanks (c :: cs) =
    if c = '#' then skipComment cs else if Unicode.isBlank c then skipBlanks cs else c :: cs := by
  rw [skipBlanks.eq_def]
  split
  · contradiction
  · rename_i he
    cases he
    rfl
  · rename_i hc he
    cases he
    rw [if_neg hc]

theorem skipComment_cons (c : Char) (cs : List Char) :
    skipComment (c :: cs) = if c = '\n' then skipBlanks cs else skipComment cs := by
  split
  · subst c; rw [skipComment]
  · rw [skipComment]; assumption

theorem skipBlanks_suffix (cs : List Char) : skipBlanks cs <:+ cs ∧ skipComment cs <:+ cs := by
  induction cs with
  | nil => exact ⟨List.suffix_refl [], List.suffix_refl []⟩
  | cons c cs ih =>
    obtain ⟨hb, hc⟩ := ih
    have behind : cs <:+ c :: cs := List.suffix_cons c cs
    rw [skipBlanks_cons, skipComment_cons]
    constructor
    · split
      · exact hc.trans behind
      · split
        · exact hb.trans behind
        · exact List.suffix_refl _
    · split
      · exact hb.trans behind
      · exact hc.trans behind

theorem skip_suffix (verbose : Bool) (cs : List Char) : skip verbose cs <:+ cs := by
  rw [skip]
  split
  · exact (skipBlanks_suffix cs).1
  · exact List.suffix_refl cs

/-- The closing text is skipped only from within a comment that is left open. -/
theorem skipBlanks_append_closing (cs : List Char) :
    (skipBlanks (cs ++ closing) = skipBlanks cs ++ closing ∨
      EndsInHash cs ∧ skipBlanks cs = [] ∧ skipBlanks (cs ++ closing) = []) ∧
    (skipComment (cs ++ closing) = skipComment cs ++ closing ∨
      (EndsInHash cs ∨ '\n' ∉ cs) ∧ skipComment cs = [] ∧ skipComment (cs ++ closing) = []) := by
  induction cs with
  | nil => exact ⟨.inl rfl, .inr ⟨.inr (by simp), rfl, rfl⟩⟩
  | cons c cs ih =>
    obtain ⟨hb, hc⟩ := ih
    rw [List.cons_append, skipBlanks_cons, skipBlanks_cons, skipComment_cons, skipComment_cons]
    constructor
    · split
      · subst c
        refine hc.imp_right fun ⟨h, hs⟩ => ⟨?_, hs⟩
        exact h.elim (·.cons '#') fun h => ⟨[], cs, rfl, h⟩
      · split
        · exact hb.imp_right fun ⟨h, hs⟩ => ⟨h.cons c, hs⟩
        · exact .inl rfl
    · split
      · exact hb.imp_right fun ⟨h, hs⟩ => ⟨.inl (h.cons c), hs⟩
      · rename_i hn
        refine hc.imp_right fun ⟨h, hs⟩ => ⟨h.imp (·.cons c) fun h => ?_, hs⟩
        simpa [Ne.symm hn] using h

theorem Abreast.skip {hash : Prop} {l l' : List Char} (h : Abreast hash l l') (verbose : Bool) :
    Abreast hash (skip verbose l) (skip verbose l') := by
  cases verbose with
  | false => exact h
  | true =>
    cases h with
    | before _ h =>
      simp only [Pattern.skip, if_true]
      rcases (skipBlanks_append_closing l).1 with hs | ⟨hh, hl, hs⟩
      · rw [hs]
        exact .before _ fun hr => h (hr.of_suffix (skipBlanks_suffix l).1)
      · rw [hl, hs]
        exact .swallowed (h hh)
    | swallowed h => exact .swallowed h

theorem Place.skip {hash : Prop} {cs cs' l l' : List Char} (p : Place hash cs cs' l l')
    (verbose : Bool) : Place hash cs cs' (skip verbose l) (skip verbose l') :=
  p.trans ⟨skip_suffix verbose l, skip_suffix verbose l', p.abreast.skip verbose⟩

/-- What both readers see behind blanks and comments. -/
theorem Place.look {hash : Prop} {cs cs' l l' : List Char} (p : Place hash cs cs' l l')
    (verbose : Bool) :
    (Pattern.skip verbose l = [] ∧ Pattern.skip verbose l' = closing) ∨
      (Pattern.skip verbose l = [] ∧ Pattern.skip verbose l' = []) ∨
      ∃ x r r', Pattern.skip verbose l = x :: r ∧ Pattern.skip verbose l' = x :: r' ∧
        Place hash cs cs' r r' ∧ r.length < l.length ∧ r'.length < l'.length := by
  obtain h | h | ⟨x, r, r', hs, hs', q⟩ := (p.skip verbose).cases
  · exact .inl h
  · exact .inr (.inl h)
  · have hl := (skip_suffix verbose l).length_le
    have hl' := (skip_suffix verbose l').length_le
    rw [hs] at hl
    rw [hs'] at hl'
    exact .inr (.inr ⟨x, r, r', hs, hs', q, hl, hl'⟩)

/-- Where the first reader finds something, the second one finds the same, in a place beside. Where
the first one fails, the second one may still find something in the closing text. -/
inductive Trails {β : Type} (R : β → β → Prop) (lost : β → Prop) : Option β → Option β → Prop
  | found {x x' : β} (h : R x x') : Trails R lost (some x) (some x')
  | failed {r' : Option β} (h : ∀ x', r' = some x' → lost x') : Trails R lost none r'

namespace Trails

variable {β γ : Type} {R : β → β → Prop} {S : γ → γ → Prop} {lost : β → Prop} {lost' : γ → Prop}
  {r r' : Option β}

theorem nothing : Trails R lost none none := .failed fun _ h => by cases h

theorem bind {f f' : β → Option γ} (h : Trails R lost r r')
    (hf : ∀ x x', R x x' → Trails S lost' (f x) (f' x'))
    (hl : ∀ x', lost x' → ∀ y', f' x' = some y' → lost' y') :
    Trails S lost' (r >>= f) (r' >>= f') := by
  cases h with
  | found h => exact hf _ _ h
  | failed h =>
    refine .failed fun y' hy => ?_
    obtain ⟨x', hx, hy⟩ := Option.bind_eq_some_iff.mp hy
    exact hl x' (h x' hx) y' hy

end Trails

end Policy.Pattern
