import Policy.Rule

namespace Policy

/-! ## Functions with a state that can fail -/

/-- A computation with a state of its own that can fail. The state is kept where it fails. -/
abbrev Fallible (σ ε : Type) := ExceptT ε (StateM σ)

namespace Fallible

variable {σ τ ε α β γ ω υ : Type}

theorem run_bind_of_ok {x : Fallible σ ε α} {next : α → Fallible σ ε β} {a : α} {s s' : σ}
    (h : x.run.run s = (.ok a, s')) : (x >>= next).run.run s = (next a).run.run s' := by
  show (match x.run.run s with | (r, s) => (ExceptT.bindCont next r).run s) = _
  rw [h]
  rfl

theorem run_bind_of_error {x : Fallible σ ε α} {next : α → Fallible σ ε β} {e : ε} {s s' : σ}
    (h : x.run.run s = (.error e, s')) : (x >>= next).run.run s = (.error e, s') := by
  show (match x.run.run s with | (r, s) => (ExceptT.bindCont next r).run s) = _
  rw [h]
  rfl

theorem run_bind_eq_ok_iff {x : Fallible σ ε α} {next : α → Fallible σ ε β} {b : β} {s s'' : σ} :
    (x >>= next).run.run s = (.ok b, s'') ↔
      ∃ a s', x.run.run s = (.ok a, s') ∧ (next a).run.run s' = (.ok b, s'') := by
  constructor
  · intro h
    rcases hx : x.run.run s with ⟨e | a, s'⟩
    · rw [run_bind_of_error hx] at h
      cases h
    · rw [run_bind_of_ok hx] at h
      exact ⟨a, s', rfl, h⟩
  · rintro ⟨a, s', hx, hn⟩
    rw [run_bind_of_ok hx, hn]

/-- Calls of `f` with their answers, each made in the state that the one before left behind. -/
inductive Calls (f : α → Fallible σ ε β) : σ → List (α × Except ε β) → σ → Prop
  | nil (s : σ) : Calls f s [] s
  | cons {s mid s' : σ} {a : α} {answer : Except ε β} {calls : List (α × Except ε β)}
    (h : (f a).run.run s = (answer, mid)) (hrest : Calls f mid calls s') :
    Calls f s ((a, answer) :: calls) s'

theorem Calls.append {f : α → Fallible σ ε β} {s mid s' : σ} {calls more : List (α × Except ε β)}
    (h : Calls f s calls mid) (hmore : Calls f mid more s') : Calls f s (calls ++ more) s' := by
  induction h with
  | nil s => exact hmore
  | cons h _ ih => exact .cons h (ih hmore)

/-- The calls in which each argument got what it is paired with. -/
def answered (pairs : List (α × β)) : List (α × Except ε β) := pairs.map fun p => (p.1, .ok p.2)

theorem answered_append (pairs more : List (α × β)) :
    (answered (pairs ++ more) : List (α × Except ε β)) = answered pairs ++ answered more :=
  List.map_append

/-- How calls on some of the references end. Either each reference got its answer, and something was
made of the answers, or the last call failed, and its error is handed on. -/
inductive Ends (refs : List α) (Made : List (α × β) → ω → Prop) :
    List (α × Except ε β) → Except ε ω → Prop
  | done {pairs : List (α × β)} {x : ω} (hrefs : pairs.map Prod.fst = refs) (hx : Made pairs x) :
    Ends refs Made (answered pairs) (.ok x)
  | failed {pairs : List (α × β)} {a : α} {e : ε} (hrefs : pairs.map Prod.fst ++ [a] <+: refs) :
    Ends refs Made (answered pairs ++ [(a, .error e)]) (.error e)

/-- The same function, which also notes each call with its answer. -/
def recorded (f : α → Fallible σ ε β) (a : α) :
    Fallible (σ × List (α × Except ε β)) ε β :=
  ExceptT.mk (modifyGet fun s =>
    let (answer, after) := (f a).run.run s.1
    (answer, (after, s.2 ++ [(a, answer)])))

/-- The computation calls `f` on the references one by one, up to and including the first call that
fails. The second computation does the same and notes the calls. -/
def InOrder (f : α → Fallible σ ε β) (refs : List α) (Made : List (α × β) → ω → Prop)
    (x : Fallible σ ε ω) (y : Fallible (σ × List (α × Except ε β)) ε ω) : Prop :=
  ∀ s, ∃ calls, Calls f s calls (x.run.run s).2 ∧ Ends refs Made calls (x.run.run s).1 ∧
    ∀ earlier, y.run.run (s, earlier) =
      ((x.run.run s).1, ((x.run.run s).2, earlier ++ calls))

namespace InOrder

variable {f : α → Fallible σ ε β} {refs refs' : List α} {Made : List (α × β) → ω → Prop}
  {Made' : List (α × β) → υ → Prop} {x : Fallible σ ε ω}
  {y : Fallible (σ × List (α × Except ε β)) ε ω}

theorem pure {a : ω} (h : Made [] a) : InOrder f [] Made (pure a) (pure a) := by
  intro s
  refine ⟨[], .nil s, .done rfl h, fun earlier => ?_⟩
  rw [List.append_nil]
  rfl

theorem call (f : α → Fallible σ ε β) (a : α) :
    InOrder f [a] (fun pairs b => pairs = [(a, b)]) (f a) (recorded f a) := by
  intro s
  refine ⟨[(a, ((f a).run.run s).1)], .cons rfl (.nil _), ?_, fun earlier => rfl⟩
  cases ((f a).run.run s).1 with
  | ok b =>
    have hdone : Ends [a] (fun pairs b => pairs = [(a, b)]) (answered [(a, b)])
      (.ok b : Except ε β) := .done rfl rfl
    exact hdone
  | error e =>
    have hfailed : Ends [a] (fun pairs b => pairs = [(a, b)]) (answered [] ++ [(a, .error e)])
      (.error e : Except ε β) := .failed List.prefix_rfl
    exact hfailed

theorem bind {next : ω → Fallible σ ε υ} {next' : ω → Fallible (σ × List (α × Except ε β)) ε υ}
    (h : InOrder f refs Made x y)
    (hn : ∀ pairs a, Made pairs a →
      InOrder f refs' (fun more => Made' (pairs ++ more)) (next a) (next' a)) :
    InOrder f (refs ++ refs') Made' (x >>= next) (y >>= next') := by
  intro s
  obtain ⟨calls, hcalls, hends, hy⟩ := h s
  rcases hx : x.run.run s with ⟨outcome, mid⟩
  rw [hx] at hcalls hends hy
  dsimp only at hcalls hends hy
  cases hends with
  | failed hrefs =>
    rw [run_bind_of_error hx]
    refine ⟨_, hcalls, .failed (hrefs.trans (List.prefix_append refs refs')), fun earlier => ?_⟩
    exact run_bind_of_error (hy earlier)
  | @done pairs a hrefs ha =>
    obtain ⟨more, hmore, hends, hy'⟩ := hn pairs a ha mid
    rw [run_bind_of_ok hx]
    refine ⟨_, hcalls.append hmore, ?_, fun earlier => ?_⟩
    · -- What the first computation made is in front of all that the second one makes.
      revert hends
      generalize ((next a).run.run mid).1 = outcome
      rintro (⟨hrefs', hb⟩ | hrefs')
      · rw [← answered_append]
        exact .done (by rw [List.map_append, hrefs, hrefs']) hb
      · rw [← List.append_assoc, ← answered_append]
        refine .failed ?_
        rw [List.map_append, hrefs, List.append_assoc]
        exact (List.prefix_append_right_inj refs).mpr hrefs'
    · rw [run_bind_of_ok (hy earlier), hy', List.append_assoc]

theorem map {g : ω → υ} (h : InOrder f refs Made x y)
    (hg : ∀ pairs a, Made pairs a → Made' pairs (g a)) :
    InOrder f refs Made' (do let a ← x; Pure.pure (g a)) (do let a ← y; Pure.pure (g a)) := by
  have hpure (pairs : List (α × β)) (a : ω) (ha : Made pairs a) :
      InOrder f [] (fun more => Made' (pairs ++ more)) (Pure.pure (g a)) (Pure.pure (g a)) :=
    pure (by rw [List.append_nil]; exact hg pairs a ha)
  have hbind := h.bind hpure
  rwa [List.append_nil] at hbind

theorem both {Made'' : List (α × β) → γ → Prop} {x' : Fallible σ ε υ}
    {y' : Fallible (σ × List (α × Except ε β)) ε υ} {g : ω → υ → γ} (h : InOrder f refs Made x y)
    (h' : InOrder f refs' Made' x' y')
    (hg : ∀ pairs pairs' a b, Made pairs a → Made' pairs' b → Made'' (pairs ++ pairs') (g a b)) :
    InOrder f (refs ++ refs') Made'' (do let a ← x; let b ← x'; Pure.pure (g a b))
      (do let a ← y; let b ← y'; Pure.pure (g a b)) :=
  h.bind fun pairs a ha => h'.map fun pairs' b hb => hg pairs pairs' a b ha hb

end InOrder

/-- A computation on the first one of two states. -/
def onFirst (x : Fallible σ ε α) : Fallible (σ × τ) ε α :=
  ExceptT.mk (modifyGet fun s => ((x.run.run s.1).1, ((x.run.run s.1).2, s.2)))

def onSecond (x : Fallible τ ε α) : Fallible (σ × τ) ε α :=
  ExceptT.mk (modifyGet fun s => ((x.run.run s.2).1, (s.1, (x.run.run s.2).2)))

/-- One function behind the other, each with its own state. -/
def andThen (f : α → Fallible σ ε β) (g : β → Fallible τ ε γ) (a : α) : Fallible (σ × τ) ε γ := do
  let b ← onFirst (f a)
  onSecond (g b)

end Fallible

/-! ## References in reading order -/

/-- The second term is the first one with each reference replaced by what it is paired with. The
pairs stand in reading order, left before right and parameters as they are listed. -/
inductive Term.Replaced {α β : Type} : List (α × β) → Term α → Term β → Prop
  | string (text : String) : Replaced [] (.string text) (.string text)
  | number (n : Number) : Replaced [] (.number n) (.number n)
  | attr (a : α) (b : β) : Replaced [(a, b)] (.attr a) (.attr b)
  | coerce {pairs : List (α × β)} {operand : Term α} {operand' : Term β}
    (h : Replaced pairs operand operand') (kind : Kind) :
    Replaced pairs (.coerce operand kind) (.coerce operand' kind)
  | binary {pairs pairs' : List (α × β)} {lhs rhs : Term α} {lhs' rhs' : Term β} (op : Operator)
    (hl : Replaced pairs lhs lhs') (hr : Replaced pairs' rhs rhs') :
    Replaced (pairs ++ pairs') (.binary op lhs rhs) (.binary op lhs' rhs')
  | request (key : String) : Replaced [] (.request key) (.request key)
  | rest (url : String) (method : Method) (params : List (String × α × β)) :
    Replaced (params.map Prod.snd) (.rest url method (params.map fun p => (p.1, p.2.1)))
      (.rest url method (params.map fun p => (p.1, p.2.2)))

/-- As for terms, left before right. -/
inductive Condition.Replaced {α β : Type} : List (α × β) → Condition α → Condition β → Prop
  | not {pairs : List (α × β)} {inner : Condition α} {inner' : Condition β}
    (h : Replaced pairs inner inner') : Replaced pairs (.not inner) (.not inner')
  | and {pairs pairs' : List (α × β)} {lhs rhs : Condition α} {lhs' rhs' : Condition β}
    (hl : Replaced pairs lhs lhs') (hr : Replaced pairs' rhs rhs') :
    Replaced (pairs ++ pairs') (.and lhs rhs) (.and lhs' rhs')
  | or {pairs pairs' : List (α × β)} {lhs rhs : Condition α} {lhs' rhs' : Condition β}
    (hl : Replaced pairs lhs lhs') (hr : Replaced pairs' rhs rhs') :
    Replaced (pairs ++ pairs') (.or lhs rhs) (.or lhs' rhs')
  | equal {pairs pairs' : List (α × β)} {lhs rhs : Term α} {lhs' rhs' : Term β}
    (hl : lhs.Replaced pairs lhs') (hr : rhs.Replaced pairs' rhs') :
    Replaced (pairs ++ pairs') (.equal lhs rhs) (.equal lhs' rhs')
  | greater {pairs pairs' : List (α × β)} {lhs rhs : Term α} {lhs' rhs' : Term β}
    (hl : lhs.Replaced pairs lhs') (hr : rhs.Replaced pairs' rhs') :
    Replaced (pairs ++ pairs') (.greater lhs rhs) (.greater lhs' rhs')

mutual

/-- As for terms, the condition before the legs and members as they are listed. -/
inductive Rule.Replaced {α β : Type} : List (α × β) → Rule α → Rule β → Prop
  | always (decision : Decision) : Rule.Replaced [] (.always decision) (.always decision)
  | never : Rule.Replaced [] .never .never
  | when {pairs : List (α × β)} {condition : Condition α} {condition' : Condition β}
    (h : condition.Replaced pairs condition') (decision : Decision) :
    Rule.Replaced pairs (.when condition decision) (.when condition' decision)
  | branch {pairs pairs' pairs'' : List (α × β)} {condition : Condition α}
    {condition' : Condition β} {onTrue onFalse : Rule α} {onTrue' onFalse' : Rule β}
    (hc : condition.Replaced pairs condition') (ht : Rule.Replaced pairs' onTrue onTrue')
    (hf : Rule.Replaced pairs'' onFalse onFalse') :
    Rule.Replaced (pairs ++ (pairs' ++ pairs'')) (.branch condition onTrue onFalse)
      (.branch condition' onTrue' onFalse')
  | majority {pairs : List (α × β)} {members : List (Rule α)} {members' : List (Rule β)}
    (h : Rule.MembersReplaced pairs members members') (decision : Decision) :
    Rule.Replaced pairs (.majority decision members) (.majority decision members')
  | all {pairs : List (α × β)} {members : List (Rule α)} {members' : List (Rule β)}
    (h : Rule.MembersReplaced pairs members members') (decision : Decision) :
    Rule.Replaced pairs (.all decision members) (.all decision members')
  | any {pairs : List (α × β)} {members : List (Rule α)} {members' : List (Rule β)}
    (h : Rule.MembersReplaced pairs members members') (decision : Decision) :
    Rule.Replaced pairs (.any decision members) (.any decision members')
  | oneOf {pairs : List (α × β)} {members : List (Rule α)} {members' : List (Rule β)}
    (h : Rule.MembersReplaced pairs members members') :
    Rule.Replaced pairs (.oneOf members) (.oneOf members')

inductive Rule.MembersReplaced {α β : Type} :
    List (α × β) → List (Rule α) → List (Rule β) → Prop
  | nil : Rule.MembersReplaced [] [] []
  | cons {pairs pairs' : List (α × β)} {rule : Rule α} {rule' : Rule β} {rules : List (Rule α)}
    {rules' : List (Rule β)} (h : Rule.Replaced pairs rule rule')
    (hs : Rule.MembersReplaced pairs' rules rules') :
    Rule.MembersReplaced (pairs ++ pairs') (rule :: rules) (rule' :: rules')

end

section InOrder

open Fallible

variable {σ ε α β : Type} (f : α → Fallible σ ε β)

theorem Term.inOrder_mapParams (params : List (String × α)) :
    InOrder f (params.map Prod.snd)
      (fun pairs linked => ∃ both : List (String × α × β), pairs = both.map Prod.snd ∧
        params = both.map (fun p => (p.1, p.2.1)) ∧ linked = both.map (fun p => (p.1, p.2.2)))
      (mapParams f params) (mapParams (recorded f) params) := by
  induction params with
  | nil => exact .pure ⟨[], rfl, rfl, rfl⟩
  | cons p params ih =>
    obtain ⟨name, a⟩ := p
    refine (InOrder.call f a).both ih ?_
    rintro - - b - rfl ⟨both, rfl, rfl, rfl⟩
    exact ⟨(name, a, b) :: both, rfl, rfl, rfl⟩

theorem Term.inOrder_mapRefs (t : Term α) :
    InOrder f t.refs (t.Replaced ·) (t.mapRefs f) (t.mapRefs (recorded f)) := by
  induction t with
  | string text => exact .pure (.string text)
  | number n => exact .pure (.number n)
  | request key => exact .pure (.request key)
  | attr a =>
    refine (InOrder.call f a).map ?_
    rintro - b rfl
    exact .attr a b
  | coerce operand kind ih => exact ih.map fun pairs u h => .coerce h kind
  | binary op lhs rhs ihl ihr => exact ihl.both ihr fun pairs pairs' l r hl hr => .binary op hl hr
  | rest url method params =>
    refine (inOrder_mapParams f params).map ?_
    rintro - - ⟨both, rfl, rfl, rfl⟩
    exact .rest url method both

theorem Condition.inOrder_mapRefs (c : Condition α) :
    InOrder f c.refs (c.Replaced ·) (c.mapRefs f) (c.mapRefs (recorded f)) := by
  induction c with
  | not inner ih => exact ih.map fun pairs d h => .not h
  | and lhs rhs ihl ihr => exact ihl.both ihr fun pairs pairs' l r hl hr => .and hl hr
  | or lhs rhs ihl ihr => exact ihl.both ihr fun pairs pairs' l r hl hr => .or hl hr
  | equal lhs rhs =>
    exact (Term.inOrder_mapRefs f lhs).both (Term.inOrder_mapRefs f rhs)
      fun pairs pairs' l r hl hr => .equal hl hr
  | greater lhs rhs =>
    exact (Term.inOrder_mapRefs f lhs).both (Term.inOrder_mapRefs f rhs)
      fun pairs pairs' l r hl hr => .greater hl hr

mutual

theorem Rule.inOrder_mapRefs (r : Rule α) :
    InOrder f r.refs (r.Replaced ·) (r.mapRefs f) (r.mapRefs (recorded f)) := by
  cases r with
  | always decision => exact .pure (.always decision)
  | never => exact .pure .never
  | when condition decision =>
    exact (Condition.inOrder_mapRefs f condition).map fun pairs c h => .when h decision
  | branch condition onTrue onFalse =>
    rw [refs, List.append_assoc]
    refine (Condition.inOrder_mapRefs f condition).bind fun pairs c hc => ?_
    exact (inOrder_mapRefs onTrue).both (inOrder_mapRefs onFalse)
      fun pairs' pairs'' t e ht he => .branch hc ht he
  | majority decision members =>
    exact (inOrder_mapMembers members).map fun pairs rs h => .majority h decision
  | all decision members =>
    exact (inOrder_mapMembers members).map fun pairs rs h => .all h decision
  | any decision members =>
    exact (inOrder_mapMembers members).map fun pairs rs h => .any h decision
  | oneOf members => exact (inOrder_mapMembers members).map fun pairs rs h => .oneOf h

theorem Rule.inOrder_mapMembers (rs : List (Rule α)) :
    InOrder f (memberRefs rs) (MembersReplaced · rs) (mapMembers f rs)
      (mapMembers (recorded f) rs) := by
  cases rs with
  | nil => exact .pure .nil
  | cons r rs =>
    exact (inOrder_mapRefs r).both (inOrder_mapMembers rs)
      fun pairs pairs' s ss hs hss => .cons hs hss

end

end InOrder

/-! ## Identity and composition -/

section Identity

variable {α : Type} {m : Type → Type} [Monad m] [LawfulMonad m]

theorem Term.mapParams_pure (params : List (String × α)) :
    mapParams (pure : α → m α) params = pure params := by
  induction params with
  | nil => rfl
  | cons p params ih => simp only [mapParams, ih, pure_bind]

theorem Term.mapRefs_pure (t : Term α) : t.mapRefs (pure : α → m α) = pure t := by
  induction t with
  | string text | number n | request key => rfl
  | attr a => simp only [mapRefs, pure_bind]
  | coerce operand kind ih => simp only [mapRefs, ih, pure_bind]
  | binary op lhs rhs ihl ihr => simp only [mapRefs, ihl, ihr, pure_bind]
  | rest url method params => simp only [mapRefs, mapParams_pure, pure_bind]

theorem Condition.mapRefs_pure (c : Condition α) : c.mapRefs (pure : α → m α) = pure c := by
  induction c with
  | not inner ih => simp only [mapRefs, ih, pure_bind]
  | and lhs rhs ihl ihr | or lhs rhs ihl ihr => simp only [mapRefs, ihl, ihr, pure_bind]
  | equal lhs rhs | greater lhs rhs => simp only [mapRefs, Term.mapRefs_pure, pure_bind]

mutual

theorem Rule.mapRefs_pure (r : Rule α) : r.mapRefs (pure : α → m α) = pure r := by
  cases r with
  | always decision | never => rfl
  | when condition decision => simp only [mapRefs, Condition.mapRefs_pure, pure_bind]
  | branch condition onTrue onFalse =>
    simp only [mapRefs, Condition.mapRefs_pure, mapRefs_pure onTrue, mapRefs_pure onFalse,
      pure_bind]
  | majority decision members | all decision members | any decision members | oneOf members =>
    simp only [mapRefs, mapMembers_pure members, pure_bind]

theorem Rule.mapMembers_pure (rs : List (Rule α)) : mapMembers (pure : α → m α) rs = pure rs := by
  cases rs with
  | nil => rfl
  | cons r rs => simp only [mapMembers, mapRefs_pure r, mapMembers_pure rs, pure_bind]

end

end Identity

section Composition

open Fallible

variable {σ τ ε α β γ ω ω' υ υ' θ θ' : Type}

/-- Where the first computation and what comes of its value go well one after the other, the third
one does the same on both states at once. -/
def Fallible.Chained (x : Fallible σ ε ω) (y : ω → Fallible τ ε υ) (z : Fallible (σ × τ) ε υ) :
    Prop :=
  ∀ a b s s' r r', x.run.run s = (.ok a, s') → (y a).run.run r = (.ok b, r') →
    z.run.run (s, r) = (.ok b, (s', r'))

namespace Fallible.Chained

variable {x : Fallible σ ε ω} {y : ω → Fallible τ ε υ} {z : Fallible (σ × τ) ε υ}
  {x' : Fallible σ ε ω'} {y' : ω' → Fallible τ ε υ'} {z' : Fallible (σ × τ) ε υ'}

theorem pure {y : ω → Fallible τ ε υ} {a : ω} {b : υ} (hy : y a = Pure.pure b) :
    Chained (Pure.pure a : Fallible σ ε ω) y (Pure.pure b) := by
  intro a' b' s s' r r' ha hb
  cases ha
  rw [hy] at hb
  cases hb
  rfl

theorem call (f : α → Fallible σ ε β) (g : β → Fallible τ ε γ) (a : α) :
    Chained (f a) g (andThen f g a) := by
  intro b c s s' r r' hf hg
  have hfirst : (onFirst (τ := τ) (f a)).run.run (s, r) = (.ok b, (s', r)) := by
    show (((f a).run.run s).1, (((f a).run.run s).2, r)) = _
    rw [hf]
  have hsecond : (onSecond (σ := σ) (g b)).run.run (s', r) = (.ok c, (s', r')) := by
    show (((g b).run.run r).1, (s', ((g b).run.run r).2)) = _
    rw [hg]
  rw [andThen, run_bind_of_ok hfirst, hsecond]

theorem map {k : ω → θ} {k' : υ → θ'} {w : θ → Fallible τ ε θ'} (h : Chained x y z)
    (hw : ∀ a, w (k a) = do let b ← y a; Pure.pure (k' b)) :
    Chained (do let a ← x; Pure.pure (k a)) w (do let b ← z; Pure.pure (k' b)) := by
  intro a b s s' r r' hx hy
  obtain ⟨a, mid, ha, hx⟩ := run_bind_eq_ok_iff.mp hx
  cases hx
  rw [hw] at hy
  obtain ⟨b, mid', hb, hy⟩ := run_bind_eq_ok_iff.mp hy
  cases hy
  rw [run_bind_of_ok (h _ _ _ _ _ _ ha hb)]
  rfl

theorem both {k : ω → ω' → θ} {k' : υ → υ' → θ'} {w : θ → Fallible τ ε θ'} (h : Chained x y z)
    (h' : Chained x' y' z')
    (hw : ∀ a a', w (k a a') = do let b ← y a; let b' ← y' a'; Pure.pure (k' b b')) :
    Chained (do let a ← x; let a' ← x'; Pure.pure (k a a')) w
      (do let b ← z; let b' ← z'; Pure.pure (k' b b')) := by
  intro a b s s' r r' hx hy
  obtain ⟨a, mid, ha, hx⟩ := run_bind_eq_ok_iff.mp hx
  obtain ⟨a', last, ha', hx⟩ := run_bind_eq_ok_iff.mp hx
  cases hx
  rw [hw] at hy
  obtain ⟨b, mid', hb, hy⟩ := run_bind_eq_ok_iff.mp hy
  obtain ⟨b', last', hb', hy⟩ := run_bind_eq_ok_iff.mp hy
  cases hy
  rw [run_bind_of_ok (h _ _ _ _ _ _ ha hb), run_bind_of_ok (h' _ _ _ _ _ _ ha' hb')]
  rfl

end Fallible.Chained

variable (f : α → Fallible σ ε β) (g : β → Fallible τ ε γ)

theorem Term.chained_mapParams (params : List (String × α)) :
    Chained (mapParams f params) (mapParams g) (mapParams (andThen f g) params) := by
  induction params with
  | nil => exact .pure rfl
  | cons p params ih => exact (Chained.call f g p.2).both ih fun _ _ => rfl

theorem Term.chained_mapRefs (t : Term α) :
    Chained (t.mapRefs f) (mapRefs g) (t.mapRefs (andThen f g)) := by
  induction t with
  | string text | number n | request key => exact .pure rfl
  | attr a => exact (Chained.call f g a).map fun _ => rfl
  | coerce operand kind ih => exact ih.map fun _ => rfl
  | binary op lhs rhs ihl ihr => exact ihl.both ihr fun _ _ => rfl
  | rest url method params => exact (chained_mapParams f g params).map fun _ => rfl

theorem Condition.chained_mapRefs (c : Condition α) :
    Chained (c.mapRefs f) (mapRefs g) (c.mapRefs (andThen f g)) := by
  induction c with
  | not inner ih => exact ih.map fun _ => rfl
  | and lhs rhs ihl ihr | or lhs rhs ihl ihr => exact ihl.both ihr fun _ _ => rfl
  | equal lhs rhs | greater lhs rhs =>
    exact (Term.chained_mapRefs f g lhs).both (Term.chained_mapRefs f g rhs) fun _ _ => rfl

/-- Both legs of a branch passed through `h`. -/
def Rule.mapLegs {α β : Type} {m : Type → Type} [Monad m] (h : α → m β)
    (legs : Rule α × Rule α) : m (Rule β × Rule β) := do
  let onTrue ← legs.1.mapRefs h
  let onFalse ← legs.2.mapRefs h
  pure (onTrue, onFalse)

theorem Rule.mapRefs_branch {α β : Type} {m : Type → Type} [Monad m] [LawfulMonad m] (h : α → m β)
    (condition : Condition α) (legs : Rule α × Rule α) :
    (branch condition legs.1 legs.2).mapRefs h = (do
      let condition ← condition.mapRefs h
      let legs ← mapLegs h legs
      pure (branch condition legs.1 legs.2)) := by
  simp only [mapRefs, mapLegs, bind_assoc, pure_bind]

mutual

theorem Rule.chained_mapRefs (r : Rule α) :
    Chained (r.mapRefs f) (mapRefs g) (r.mapRefs (andThen f g)) := by
  cases r with
  | always decision | never => exact .pure rfl
  | when condition decision =>
    exact (Condition.chained_mapRefs f g condition).map fun _ => rfl
  | branch condition onTrue onFalse =>
    have hlegs : Chained (mapLegs f (onTrue, onFalse)) (mapLegs g)
        (mapLegs (andThen f g) (onTrue, onFalse)) :=
      (chained_mapRefs onTrue).both (chained_mapRefs onFalse) fun _ _ => rfl
    rw [mapRefs_branch f condition (onTrue, onFalse),
      mapRefs_branch (andThen f g) condition (onTrue, onFalse)]
    exact (Condition.chained_mapRefs f g condition).both hlegs (mapRefs_branch g)
  | majority decision members | all decision members | any decision members | oneOf members =>
    exact (chained_mapMembers members).map fun _ => rfl

theorem Rule.chained_mapMembers (rs : List (Rule α)) :
    Chained (mapMembers f rs) (mapMembers g) (mapMembers (andThen f g) rs) := by
  cases rs with
  | nil => exact .pure rfl
  | cons r rs => exact (chained_mapRefs r).both (chained_mapMembers rs) fun _ _ => rfl

end

end Composition

/-! ## From left to right -/

section LeftToRight

open Fallible

/-- Passing the references of a syntax through functions keeps to the reading order. Each call comes
in its turn and once, the first error ends all, and without one nothing but the references
changes. A function that changes nothing leaves all as it is, and one function behind the other,
each with its own state, is the same as both at each reference. -/
structure LeftToRight (syn : Type → Type) (refs : ∀ {α : Type}, syn α → List α)
    (replaced : ∀ {α β : Type}, List (α × β) → syn α → syn β → Prop)
    (pass : ∀ {α β : Type} {m : Type → Type} [Monad m], (α → m β) → syn α → m (syn β)) : Prop where
  inOrder {σ ε α β : Type} (f : α → Fallible σ ε β) (x : syn α) :
    InOrder f (refs x) (replaced · x) (pass f x) (pass (recorded f) x)
  identity {σ ε α : Type} (x : syn α) : pass (pure : α → Fallible σ ε α) x = pure x
  composition {σ τ ε α β γ : Type} (f : α → Fallible σ ε β) (g : β → Fallible τ ε γ) (x : syn α) :
    Chained (pass f x) (pass g) (pass (andThen f g) x)

theorem references_pass_left_to_right :
    LeftToRight Term Term.refs Term.Replaced Term.mapRefs ∧
      LeftToRight Condition Condition.refs Condition.Replaced Condition.mapRefs ∧
      LeftToRight Rule Rule.refs Rule.Replaced Rule.mapRefs where
  left := ⟨Term.inOrder_mapRefs, Term.mapRefs_pure, Term.chained_mapRefs⟩
  right.left := ⟨Condition.inOrder_mapRefs, Condition.mapRefs_pure, Condition.chained_mapRefs⟩
  right.right := ⟨Rule.inOrder_mapRefs, Rule.mapRefs_pure, Rule.chained_mapRefs⟩

/-- Numbers names in the order of the calls. The empty name is refused. -/
def numbering (name : String) : Fallible Nat String (String × Nat) := do
  if name = "" then throw "no name"
  let n ← get
  set (n + 1)
  pure (name, n)

/-- Adds up the number so far and that of the name. -/
def summing (p : String × Nat) : Fallible Nat String Nat := do
  let n ← get
  set (n + p.2)
  pure (n + p.2)

def oncePerCall : Term String :=
  .binary .plus (.attr "rate") (.rest "http://rates" .get [("of", "rate"), ("on", "day")])

/-- The name that occurs twice gets two numbers. Both functions at once leave the states and the
sums that they leave one behind the other. -/
theorem numbered_then_summed :
    (oncePerCall.mapRefs numbering).run.run 0 =
        (.ok (.binary .plus (.attr ("rate", 0))
          (.rest "http://rates" .get [("of", ("rate", 1)), ("on", ("day", 2))])), 3) ∧
      (oncePerCall.mapRefs (andThen numbering summing)).run.run (0, 10) =
        (.ok (.binary .plus (.attr 10) (.rest "http://rates" .get [("of", 11), ("on", 13)])),
          (3, 13)) :=
  ⟨rfl, references_pass_left_to_right.1.composition numbering summing oncePerCall _ _ _ _ _ _
    rfl rfl⟩

end LeftToRight

end Policy
