import Policy.Proofs.Evaluation.Running
import Policy.Proofs.Traced

namespace Policy

/-! ## Watched evaluation

The evaluator once more, without explanations. A fault is noted where it comes up and not handed
on, so that a computation that a fault left without a value does not tell which fault that was. -/

/-- A session and the faults that were raised in it, first one first. -/
structure Watch (σ : Type) where
  session : Session σ
  raised : List Fault

abbrev Watched (σ : Type) := StateM (Watch σ)

namespace Watched

variable {σ α β γ ι : Type}

/-- A computation that raises nothing by itself. -/
def within (x : StateM (Session σ) α) : Watched σ α :=
  modifyGet fun w => ((x.run w.session).1, ⟨(x.run w.session).2, w.raised⟩)

theorem run_within (x : StateM (Session σ) α) (w : Watch σ) :
    (within x).run w = ((x.run w.session).1, ⟨(x.run w.session).2, w.raised⟩) := rfl

def raise (fault : Fault) : Watched σ (Option α) :=
  modifyGet fun w => (none, ⟨w.session, w.raised ++ [fault]⟩)

/-- Takes up the result of a step, which raises a fault if it failed. -/
def settle : Except Fault α → Watched σ (Option α)
  | .ok a => pure (some a)
  | .error fault => raise fault

/-- Goes on if there is a value to go on with. -/
def proceed (next : α → Watched σ (Option β)) : Option α → Watched σ (Option β)
  | some a => next a
  | none => pure none

/-- Joins two values by a step that can fail. -/
def settleBoth (f : α → β → Except Fault γ) : Option α → Option β → Watched σ (Option γ)
  | some a, some b => settle (f a b)
  | _, _ => pure none

/-- All values, if there are all of them. -/
def gather : List (Option α) → Option (List α)
  | [] => some []
  | x :: xs => x.bind fun a => (gather xs).map (a :: ·)

/-- Takes up named entries up to the first one without a value. -/
def entries (f : ι → Watched σ (Option α)) :
    List (String × ι) → Watched σ (Option (List (String × α)))
  | [] => pure (some [])
  | (name, entry) :: rest => do
    let x ← f entry
    proceed (fun a => do
      let values ← entries f rest
      pure (values.map ((name, a) :: ·))) x

end Watched

namespace Evaluation

open Watched

variable {σ : Type}

def watchLookup (e : Evaluation σ) (key : String) : Watched σ (Option Value) :=
  match e.request.get? key with
  | some text => pure (some (.string text))
  | none => raise (.missingParameter key)

def watchCall (e : Evaluation σ) (url : String) (method : Method)
    (params : List (String × Value)) : Watched σ (Option Value) := do
  let answer ← within (e.service.request ⟨url, method, params⟩)
  settle (answer.map .string)

def watchTermWith (e : Evaluation σ) (deref : Slot → Watched σ (Option Value)) :
    Term Slot → Watched σ (Option Value)
  | .string text => pure (some (.string text))
  | .number n => pure (some (.number n))
  | .attr slot => deref slot
  | .coerce operand kind => do
    let x ← watchTermWith e deref operand
    proceed (fun v => settle (v.coerce kind)) x
  | .binary op lhs rhs => do
    let x ← watchTermWith e deref lhs
    let y ← watchTermWith e deref rhs
    settleBoth (Value.apply op) x y
  | .request key => e.watchLookup key
  | .rest url method params => do
    let values ← entries deref params
    proceed (e.watchCall url method) values

def watchAttrAt (e : Evaluation σ) :
    (room : Nat) → (chain : List Slot) → Slot → Watched σ (Option Value)
  | room, chain, slot =>
    match e.set.attributes[slot]? with
    | none => raise (.unknownSlot slot)
    | some a =>
      if chain.contains slot then raise (.cycle a.name)
      else
        match room with
        | 0 => raise (.tooDeep a.name e.depthLimit)
        | room + 1 => e.watchTermWith (watchAttrAt e room (slot :: chain)) a.value

def watchTerm (e : Evaluation σ) : Term Slot → Watched σ (Option Value) :=
  e.watchTermWith (e.watchAttrAt e.depthLimit [])

def watchCondition (e : Evaluation σ) : Condition Slot → Watched σ (Option Bool)
  | .not inner => do
    let x ← watchCondition e inner
    pure (x.map (!·))
  | .and lhs rhs => do
    let x ← watchCondition e lhs
    let y ← watchCondition e rhs
    settleBoth (fun a b => .ok (a && b)) x y
  | .or lhs rhs => do
    let x ← watchCondition e lhs
    let y ← watchCondition e rhs
    settleBoth (fun a b => .ok (a || b)) x y
  | .equal lhs rhs => do
    let x ← e.watchTerm lhs
    let y ← e.watchTerm rhs
    settleBoth (fun a b => .ok (a.equals b)) x y
  | .greater lhs rhs => do
    let x ← e.watchTerm lhs
    let y ← e.watchTerm rhs
    settleBoth Value.greater x y

mutual

/-- Evaluates a rule under watch. A member of a group is taken up whether or not a fault left an
earlier one without a decision. -/
def watchRule (e : Evaluation σ) : Rule Slot → Watched σ (Option Decision)
  | .always decision => pure (some decision)
  | .never => pure (some .undecided)
  | .when condition decision => do
    let x ← e.watchCondition condition
    pure (x.map fun holds => if holds then decision else Decision.undecided)
  | .branch condition onTrue onFalse => do
    let x ← e.watchCondition condition
    proceed (fun holds => if holds then watchRule e onTrue else watchRule e onFalse) x
  | .majority decision members => do
    let xs ← watchRules e members
    pure ((gather xs).map (Decision.majority decision))
  | .all decision members => do
    let xs ← watchRules e members
    pure ((gather xs).map (Decision.unanimous decision))
  | .any decision members => do
    let xs ← watchRules e members
    pure ((gather xs).map (Decision.anyOf decision))
  | .oneOf members => do
    let xs ← watchRules e members
    pure ((gather xs).map Decision.exclusive)

def watchRules (e : Evaluation σ) : List (Rule Slot) → Watched σ (List (Option Decision))
  | [] => pure []
  | rule :: rest => do
    let x ← watchRule e rule
    let xs ← watchRules e rest
    pure (x :: xs)

end

end Evaluation

/-! ## What watching tells

A step lemma for each way in which the evaluator joins results, then the runs. -/

/-- The fault that a result failed with. -/
def fault? {α : Type} : Except Fault α → Option Fault
  | .ok _ => none
  | .error fault => some fault

theorem Traced.isSuccess_iff {α : Type} (x : Traced α) :
    x.isSuccess ↔ fault? x.result = none := by
  cases x with
  | success a label children => simp [Traced.isSuccess, Traced.result, fault?]
  | failed fault => simp [Traced.isSuccess, Traced.result, fault?]

theorem Traced.eq_failed_iff {α : Type} (x : Traced α) (fault : Fault) :
    x = .failed fault ↔ fault? x.result = some fault := by
  cases x with
  | success a label children => simp [Traced.result, fault?]
  | failed fault' => simp [Traced.result, fault?]

/-- Watching from some point on came to the value of the result, by the same calls, and the first
fault that was raised from there on is the one that the result failed with. -/
structure Tells {σ α : Type} (before : List Fault) (r : Except Fault α) (s : Session σ)
    (watched : Option α × Watch σ) : Prop where
  value : watched.1 = r.toOption
  session : watched.2.session = s
  raised : ∃ faults, watched.2.raised = before ++ faults ∧ faults.head? = fault? r

/-- Wherever it starts, the watched computation tells what the other one comes to. -/
def Mirrors {σ α : Type} (x : StateM (Session σ) (Traced α)) (y : Watched σ (Option α)) : Prop :=
  ∀ w, Tells w.raised (x.run w.session).1.result (x.run w.session).2 (y.run w)

namespace Tells

variable {σ α β γ : Type} {before : List Fault} {s : Session σ}

theorem of_settle (r : Except Fault α) (w : Watch σ) :
    Tells w.raised r w.session ((Watched.settle r).run w) := by
  cases r with
  | ok a => exact ⟨rfl, rfl, [], (List.append_nil _).symm, rfl⟩
  | error fault => exact ⟨rfl, rfl, [fault], rfl, rfl⟩

/-- A success raised nothing, so that it can be left out of what follows it. -/
theorem after_ok {a : α} {watched : Option α × Watch σ} {r : Except Fault β} {s' : Session σ}
    {next : Option β × Watch σ} (hx : Tells before (.ok a) s watched)
    (hn : Tells watched.2.raised r s' next) : Tells before r s' next := by
  obtain ⟨faults, hf, hhead⟩ := hx.raised
  have hnil : faults = [] := List.head?_eq_none_iff.mp hhead
  rw [hnil, List.append_nil] at hf
  rw [hf] at hn
  exact hn

/-- Once a fault was raised, nothing that follows can get in front of it. -/
theorem after_error {fault : Fault} {watched : Option α × Watch σ} {r : Except Fault β}
    {s' : Session σ} {next : Option β × Watch σ} (hx : Tells before (.error fault) s watched)
    (hn : Tells watched.2.raised r s' next) :
    Tells before (.error fault : Except Fault γ) s' (none, next.2) := by
  obtain ⟨faults, hf, hhead⟩ := hx.raised
  obtain ⟨later, hl, -⟩ := hn.raised
  refine ⟨rfl, hn.session, faults ++ later, ?_, ?_⟩
  · rw [hl, hf, List.append_assoc]
  · rw [List.head?_append, hhead]
    rfl

theorem map {r : Except Fault α} {watched : Option α × Watch σ} (f : α → β)
    (h : Tells before r s watched) :
    Tells before (r >>= fun a => .ok (f a)) s (watched.1.map f, watched.2) := by
  cases r with
  | ok a => exact ⟨congrArg (Option.map f) h.value, h.session, h.raised⟩
  | error fault => exact ⟨congrArg (Option.map f) h.value, h.session, h.raised⟩

/-- A step that needs the value is taken only if there is one. -/
theorem proceed {r : Except Fault α} {watched : Option α × Watch σ} {r' : Except Fault β}
    {s' : Session σ} {next : α → Watched σ (Option β)} (h : Tells before r s watched)
    (hok : ∀ a, r = .ok a → Tells watched.2.raised r' s' ((next a).run watched.2))
    (herror : ∀ fault, r = .error fault → r' = .error fault ∧ s' = s) :
    Tells before r' s' ((Watched.proceed next watched.1).run watched.2) := by
  cases r with
  | ok a =>
    have hv : watched.1 = some a := h.value
    rw [hv]
    exact h.after_ok (hok a rfl)
  | error fault =>
    have hv : watched.1 = none := h.value
    obtain ⟨rfl, rfl⟩ := herror fault rfl
    rw [hv]
    exact ⟨rfl, h.session, h.raised⟩

/-- Both operands are taken up before they are joined. The faults of the first one come first. -/
theorem settleBoth {r : Except Fault α} {r' : Except Fault β} {s' : Session σ}
    {x : Option α × Watch σ} {y : Option β × Watch σ} (f : α → β → Except Fault γ)
    (hx : Tells before r s x) (hy : Tells x.2.raised r' s' y) :
    Tells before (r >>= fun a => r' >>= f a) s' ((Watched.settleBoth f x.1 y.1).run y.2) := by
  cases r with
  | error fault =>
    have hv : x.1 = none := hx.value
    rw [hv]
    exact hx.after_error hy
  | ok a =>
    have hv : x.1 = some a := hx.value
    rw [hv]
    apply hx.after_ok
    cases r' with
    | error fault =>
      have hv : y.1 = none := hy.value
      rw [hv]
      exact ⟨rfl, hy.session, hy.raised⟩
    | ok b =>
      have hv : y.1 = some b := hy.value
      rw [hv]
      apply hy.after_ok
      have hsettle := of_settle (f a b) y.2
      rw [hy.session] at hsettle
      exact hsettle

/-- The values of a first result and of those behind it. -/
theorem gather_cons {r : Except Fault α} {rs : Except Fault (List α)} {s' : Session σ}
    {x : Option α × Watch σ} {xs : List (Option α) × Watch σ} (hx : Tells before r s x)
    (hxs : Tells x.2.raised rs s' (Watched.gather xs.1, xs.2)) :
    Tells before (r >>= fun a => rs >>= fun as => .ok (a :: as)) s'
      (Watched.gather (x.1 :: xs.1), xs.2) := by
  cases r with
  | error fault =>
    have hv : x.1 = none := hx.value
    rw [hv]
    exact hx.after_error hxs
  | ok a =>
    have hv : x.1 = some a := hx.value
    rw [hv]
    exact hx.after_ok (hxs.map (a :: ·))

end Tells

namespace Mirrors

variable {σ α β γ ι : Type}

theorem of_leaf (a : α) (label : String) :
    Mirrors (pure (.leaf a label) : StateM (Session σ) (Traced α)) (pure (some a)) :=
  fun w => Tells.of_settle (.ok a) w

theorem of_raise (fault : Fault) :
    Mirrors (pure (.failed fault) : StateM (Session σ) (Traced α)) (Watched.raise fault) :=
  fun w => Tells.of_settle (.error fault) w

section Shown

variable [Shown α] {x : StateM (Session σ) (Traced α)} {y : Watched σ (Option α)}

theorem map (f : α → β) (label : String) (h : Mirrors x y) :
    Mirrors (do let t ← x; pure (t.map f label)) (do let a ← y; pure (a.map f)) := by
  intro w
  simp only [run_bind, run_pure, Traced.result_map]
  exact (h w).map f

theorem tryMap (f : α → Except Fault γ) (label : String) (h : Mirrors x y) :
    Mirrors (do let t ← x; pure (t.tryMap f label))
      (do let a ← y; Watched.proceed (fun a => Watched.settle (f a)) a) := by
  intro w
  simp only [run_bind, run_pure, Traced.result_tryMap]
  refine (h w).proceed (fun a ha => ?_) (fun fault hf => ?_)
  · have hsettle := Tells.of_settle (f a) (y.run w).2
    rw [(h w).session] at hsettle
    rw [ha]
    exact hsettle
  · rw [hf]
    exact ⟨rfl, rfl⟩

theorem combine [Shown β] {x' : StateM (Session σ) (Traced β)} {y' : Watched σ (Option β)}
    (f : α → β → Except Fault γ) (label : String) (h : Mirrors x y) (h' : Mirrors x' y') :
    Mirrors (do let t ← x; let t' ← x'; pure (Traced.combine f label t t'))
      (do let a ← y; let b ← y'; Watched.settleBoth f a b) := by
  intro w
  simp only [run_bind, run_pure, Traced.result_combine]
  have hy := h' (y.run w).2
  rw [(h w).session] at hy
  exact (h w).settleBoth f hy

theorem flatMap [Shown β] {next : α → StateM (Session σ) (Traced β)}
    {next' : α → Watched σ (Option β)} (label : String) (h : Mirrors x y) (hn : ∀ a, Mirrors (next a) (next' a)) :
    Mirrors (do let t ← x; t.flatMap next label) (do let a ← y; Watched.proceed next' a) := by
  intro w
  simp only [run_bind, Traced.run_flatMap]
  have hx := h w
  rw [Traced.result_eq_parts] at hx
  cases hp : (x.run w.session).1.parts with
  | ok part =>
    refine hx.proceed (fun a ha => ?_) (fun fault hf => ?_)
    · have hnext := hn a (y.run w).2
      rw [hx.session] at hnext
      rw [hp] at ha
      cases ha
      rw [Traced.result_follow]
      exact hnext
    · rw [hp] at hf
      cases hf
  | error fault =>
    refine hx.proceed (fun a ha => ?_) (fun fault' hf => ?_)
    · rw [hp] at ha
      cases ha
    · rw [hp] at hf
      cases hf
      exact ⟨rfl, rfl⟩

theorem entryParts {f : ι → StateM (Session σ) (Traced α)} {g : ι → Watched σ (Option α)}
    (h : ∀ i, Mirrors (f i) (g i)) (entries : List (String × ι)) (w : Watch σ) :
    Tells w.raised (((Traced.entryParts f entries).run w.session).1.map (List.map Prod.fst))
      ((Traced.entryParts f entries).run w.session).2 ((Watched.entries g entries).run w) := by
  induction entries generalizing w with
  | nil => exact Tells.of_settle (.ok []) w
  | cons entry entries ih =>
    obtain ⟨name, i⟩ := entry
    have hx := h i w
    rw [Traced.result_eq_parts] at hx
    simp only [Traced.entryParts, run_bind]
    cases hp : ((f i).run w.session).1.parts with
    | error fault =>
      rw [hp] at hx
      exact hx.proceed (fun a ha => by cases ha) (fun fault' hf => by cases hf; exact ⟨rfl, rfl⟩)
    | ok part =>
      obtain ⟨a, node⟩ := part
      rw [hp] at hx
      refine hx.proceed (fun a' ha => ?_) (fun fault hf => by cases hf)
      cases ha
      have hrest := (ih ((g i).run w).2).map (fun values => (name, a) :: values)
      rw [hx.session] at hrest
      simp only [run_bind, run_pure]
      cases hparts : ((Traced.entryParts f entries).run ((f i).run w.session).2).1 with
      | error fault =>
        rw [hparts] at hrest
        exact hrest
      | ok parts =>
        rw [hparts] at hrest
        exact hrest

theorem traverse {f : ι → StateM (Session σ) (Traced α)} {g : ι → Watched σ (Option α)}
    (label : String) (h : ∀ i, Mirrors (f i) (g i)) (entries : List (String × ι)) :
    Mirrors (Traced.traverse f label entries) (Watched.entries g entries) := by
  intro w
  have hentries := entryParts h entries w
  simp only [Traced.traverse, run_bind]
  cases hparts : ((Traced.entryParts f entries).run w.session).1 with
  | error fault =>
    rw [hparts] at hentries
    exact hentries
  | ok parts =>
    rw [hparts] at hentries
    exact hentries

end Shown

end Mirrors

/-! ## Runs -/

namespace Evaluation

variable {σ : Type} (e : Evaluation σ)

theorem mirrors_lookup (key : String) : Mirrors (pure (e.lookup key)) (e.watchLookup key) := by
  unfold lookup watchLookup
  cases e.request.get? key with
  | none => exact Mirrors.of_raise _
  | some text => exact Mirrors.of_leaf _ _

theorem mirrors_call (url : String) (method : Method) (params : List (String × Value)) :
    Mirrors (e.call url method params) (e.watchCall url method params) := by
  intro w
  simp only [call, watchCall, run_bind, Watched.run_within]
  have hsettle := Tells.of_settle
    (((e.service.request ⟨url, method, params⟩).run w.session).1.map Value.string)
    ⟨((e.service.request ⟨url, method, params⟩).run w.session).2, w.raised⟩
  revert hsettle
  cases ((e.service.request ⟨url, method, params⟩).run w.session).1 with
  | ok body => exact id
  | error fault => exact id

theorem mirrors_termWith {deref : Slot → Run σ (Traced Value)}
    {watchDeref : Slot → Watched σ (Option Value)}
    (h : ∀ slot, Mirrors (deref slot) (watchDeref slot)) (t : Term Slot) :
    Mirrors (e.termWith deref t) (e.watchTermWith watchDeref t) := by
  induction t with
  | string text => exact Mirrors.of_leaf _ _
  | number n => exact Mirrors.of_leaf _ _
  | attr slot => exact h slot
  | coerce operand kind ih => exact ih.tryMap _ _
  | binary op lhs rhs ihl ihr => exact ihl.combine _ _ ihr
  | request key => exact e.mirrors_lookup key
  | rest url method params =>
    exact (Mirrors.traverse "params" h params).flatMap _ (e.mirrors_call url method)

/-- By induction on the room, since each attribute leaves one less to those it refers to. -/
theorem mirrors_attrAt (room : Nat) (chain : List Slot) (slot : Slot) :
    Mirrors (e.attrAt room chain slot) (e.watchAttrAt room chain slot) := by
  induction room generalizing chain slot with
  | zero =>
    unfold attrAt watchAttrAt
    cases e.set.attributes[slot]? with
    | none => exact Mirrors.of_raise _
    | some a =>
      dsimp only
      split
      · exact Mirrors.of_raise _
      · exact Mirrors.of_raise _
  | succ room ih =>
    unfold attrAt watchAttrAt
    cases e.set.attributes[slot]? with
    | none => exact Mirrors.of_raise _
    | some a =>
      dsimp only
      split
      · exact Mirrors.of_raise _
      · have hvalue := (e.mirrors_termWith (ih (slot :: chain)) a.value).map id
          ("attribute " ++ a.name)
        simpa only [Option.map_id_fun, id, bind_pure] using hvalue

theorem mirrors_term (t : Term Slot) : Mirrors (e.term t) (e.watchTerm t) :=
  e.mirrors_termWith (e.mirrors_attrAt e.depthLimit []) t

theorem mirrors_condition (c : Condition Slot) :
    Mirrors (e.condition c) (e.watchCondition c) := by
  induction c with
  | not inner ih => exact ih.map _ _
  | and lhs rhs ihl ihr => exact ihl.combine _ _ ihr
  | or lhs rhs ihl ihr => exact ihl.combine _ _ ihr
  | equal lhs rhs => exact (e.mirrors_term lhs).combine _ _ (e.mirrors_term rhs)
  | greater lhs rhs => exact (e.mirrors_term lhs).combine _ _ (e.mirrors_term rhs)

/-- A group comes to a decision if the watched members all did. -/
theorem mirrors_group {members : Run σ (List (Traced Decision))}
    {watched : Watched σ (List (Option Decision))} (f : List Decision → Decision) (label : String)
    (h : ∀ w, Tells w.raised (Traced.results (members.run w.session).1) (members.run w.session).2
      (Watched.gather (watched.run w).1, (watched.run w).2)) :
    Mirrors (do let xs ← members; pure (Traced.aggregate f label xs))
      (do let xs ← watched; pure ((Watched.gather xs).map f)) := by
  intro w
  simp only [run_bind, run_pure, Traced.result_aggregate]
  exact (h w).map f

mutual

theorem mirrors_rule (r : Rule Slot) : Mirrors (e.rule r) (e.watchRule r) := by
  cases r with
  | always decision => exact Mirrors.of_leaf _ _
  | never => exact Mirrors.of_leaf _ _
  | when condition decision => exact (e.mirrors_condition condition).map _ _
  | branch condition onTrue onFalse =>
    refine (e.mirrors_condition condition).flatMap _ (fun holds => ?_)
    cases holds with
    | true => exact mirrors_rule onTrue
    | false => exact mirrors_rule onFalse
  | majority decision members => exact mirrors_group _ _ (tells_rules members)
  | all decision members => exact mirrors_group _ _ (tells_rules members)
  | any decision members => exact mirrors_group _ _ (tells_rules members)
  | oneOf members => exact mirrors_group _ _ (tells_rules members)

theorem tells_rules (rs : List (Rule Slot)) (w : Watch σ) :
    Tells w.raised (Traced.results ((e.rules rs).run w.session).1) ((e.rules rs).run w.session).2
      (Watched.gather ((e.watchRules rs).run w).1, ((e.watchRules rs).run w).2) := by
  cases rs with
  | nil => exact Tells.of_settle (.ok []) w
  | cons r rs =>
    have hr := mirrors_rule r w
    have hrs := tells_rules rs ((e.watchRule r).run w).2
    rw [hr.session] at hrs
    exact hr.gather_cons hrs

end

/-- The faults raised while a rule is evaluated, first one first. -/
def raisedBy (r : Rule Slot) (s : Session σ) : List Fault :=
  ((e.watchRule r).run ⟨s, []⟩).2.raised

/-- A rule succeeds exactly if no fault is raised in its evaluation, and else fails with the fault
that is raised first. To watch for faults changes neither the decision nor the calls. -/
theorem rule_fails_with_first_fault (r : Rule Slot) (s : Session σ) :
    ((e.watchRule r).run ⟨s, []⟩).1 = ((e.rule r).run s).1.result.toOption ∧
    ((e.watchRule r).run ⟨s, []⟩).2.session = ((e.rule r).run s).2 ∧
    (((e.rule r).run s).1.isSuccess ↔ e.raisedBy r s = []) ∧
    ∀ fault, ((e.rule r).run s).1 = .failed fault ↔ (e.raisedBy r s).head? = some fault := by
  obtain ⟨hvalue, hsession, faults, hraised, hhead⟩ := e.mirrors_rule r ⟨s, []⟩
  have heq : e.raisedBy r s = faults := hraised
  rw [heq, Traced.isSuccess_iff, ← hhead, List.head?_eq_none_iff]
  refine ⟨hvalue, hsession, Iff.rfl, fun fault => ?_⟩
  rw [Traced.eq_failed_iff, ← hhead]

end Evaluation

end Policy
