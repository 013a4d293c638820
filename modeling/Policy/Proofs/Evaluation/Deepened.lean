import Policy.Proofs.Evaluation.Raised

namespace Policy

/-- The fault that a result failed with. -/
def Traced.fault? {α : Type} (x : Traced α) : Option Fault := Policy.fault? x.result

/-- The fault that comes first among some results. -/
def Traced.firstFault? {α : Type} (xs : List (Traced α)) : Option Fault :=
  Policy.fault? (results xs)

/-- There is no result, since an attribute was beyond the limit on how far to look. -/
def Traced.OutOfDepth {α : Type} (x : Traced α) : Prop :=
  ∃ name limit, x = .failed (.tooDeep name limit)

/-! ## One computation in place of another

Where a step fails for the limit, a higher one lets it make calls, so that the sessions of the two
runs go apart from there on. If another fault comes before that step, both runs fail with it, however
different all that follows may be. -/

/-- Wherever both start, they do the same, or the first one fails: then it fails for the limit, or
the second one fails with the same fault. -/
def Repaired {τ α : Type} (fails : α → Option Fault) (x y : StateM τ α) : Prop :=
  ∀ s, x.run s = y.run s ∨ ∃ fault, fails (x.run s).1 = some fault ∧
    (fault.ofDepth = true ∨ fails (y.run s).1 = some fault)

namespace Repaired

variable {τ α β γ ι : Type} {fails : α → Option Fault} {fails' : β → Option Fault}

theorem refl (fails : α → Option Fault) (x : StateM τ α) : Repaired fails x x :=
  fun _ => .inl rfl

/-- What follows a failure has to fail with the same fault. -/
theorem bind {x y : StateM τ α} {next next' : α → StateM τ β} (h : Repaired fails x y)
    (hn : ∀ a, Repaired fails' (next a) (next' a))
    (hl : ∀ a fault s, fails a = some fault → fails' ((next a).run s).1 = some fault)
    (hr : ∀ a fault s, fails a = some fault → fails' ((next' a).run s).1 = some fault) :
    Repaired fails' (x >>= next) (y >>= next') := by
  intro s
  rw [run_bind, run_bind]
  rcases h s with hsame | ⟨fault, hx, hdeep | hy⟩
  · rw [hsame]
    exact hn _ _
  · exact .inr ⟨fault, hl _ fault _ hx, .inl hdeep⟩
  · exact .inr ⟨fault, hl _ fault _ hx, .inr (hr _ fault _ hy)⟩

theorem map {x y : StateM τ α} {f : α → β} (h : Repaired fails x y)
    (hf : ∀ a fault, fails a = some fault → fails' (f a) = some fault) :
    Repaired fails' (do let a ← x; pure (f a)) (do let a ← y; pure (f a)) :=
  h.bind (fun _ => refl _ _) (fun a fault _ => hf a fault) fun a fault _ => hf a fault

/-- A step that needs the value of a result is taken only if there is one. -/
theorem onward {x y : StateM τ (Traced α)} {next next' : Traced α → StateM τ β}
    (h : Repaired Traced.fault? x y)
    (hn : ∀ a label children,
      Repaired fails' (next (.success a label children)) (next' (.success a label children)))
    (hl : ∀ fault s, fails' ((next (.failed fault)).run s).1 = some fault)
    (hr : ∀ fault s, fails' ((next' (.failed fault)).run s).1 = some fault) :
    Repaired fails' (x >>= next) (y >>= next') := by
  have hfailed : ∀ (t : Traced α) fault, t.fault? = some fault → t = .failed fault :=
    fun t fault ht => (t.eq_failed_iff fault).mpr ht
  refine h.bind (fun t => ?_) (fun t fault s ht => ?_) (fun t fault s ht => ?_)
  · cases t with
    | success a label children => exact hn a label children
    | failed fault => exact fun s => .inr ⟨fault, hl fault s, .inr (hr fault s)⟩
  · rw [hfailed t fault ht]
    exact hl fault s
  · rw [hfailed t fault ht]
    exact hr fault s

theorem mapTraced {x y : StateM τ (Traced α)} {f : Traced α → β} (h : Repaired Traced.fault? x y)
    (hf : ∀ fault, fails' (f (.failed fault)) = some fault) :
    Repaired fails' (do let t ← x; pure (f t)) (do let t ← y; pure (f t)) :=
  h.onward (fun _ _ _ => refl _ _) (fun fault _ => hf fault) fun fault _ => hf fault

theorem mapExcept {x y : StateM τ (Except Fault α)} {f : Except Fault α → β}
    (h : Repaired Policy.fault? x y) (hf : ∀ fault, fails' (f (.error fault)) = some fault) :
    Repaired fails' (do let r ← x; pure (f r)) (do let r ← y; pure (f r)) := by
  refine h.map fun r fault hr => ?_
  cases r with
  | ok a => cases hr
  | error other =>
    cases hr
    exact hf fault

section Shown

variable [Shown α] {x y : StateM τ (Traced α)}

theorem tryMap (f : α → Except Fault β) (label : String) (h : Repaired Traced.fault? x y) :
    Repaired Traced.fault? (do let t ← x; pure (t.tryMap f label))
      (do let t ← y; pure (t.tryMap f label)) :=
  h.mapTraced fun _ => rfl

theorem combine [Shown β] {x' y' : StateM τ (Traced β)} (f : α → β → Except Fault γ)
    (label : String) (h : Repaired Traced.fault? x y) (h' : Repaired Traced.fault? x' y') :
    Repaired Traced.fault? (do let t ← x; let u ← x'; pure (Traced.combine f label t u))
      (do let t ← y; let u ← y'; pure (Traced.combine f label t u)) :=
  h.onward (fun _ _ _ => h'.mapTraced fun _ => rfl) (fun _ _ => rfl) fun _ _ => rfl

theorem flatMap [Shown β] {next next' : α → StateM τ (Traced β)} (label : String)
    (h : Repaired Traced.fault? x y) (hn : ∀ a, Repaired Traced.fault? (next a) (next' a)) :
    Repaired Traced.fault? (do let t ← x; t.flatMap next label)
      (do let t ← y; t.flatMap next' label) :=
  h.onward (fun a _ _ => (hn a).mapTraced fun _ => rfl) (fun _ _ => rfl) fun _ _ => rfl

theorem entryParts {f g : ι → StateM τ (Traced α)} (h : ∀ i, Repaired Traced.fault? (f i) (g i))
    (entries : List (String × ι)) :
    Repaired Policy.fault? (Traced.entryParts f entries) (Traced.entryParts g entries) := by
  induction entries with
  | nil => exact refl _ _
  | cons entry entries ih =>
    obtain ⟨name, i⟩ := entry
    exact (h i).onward (fun _ _ _ => ih.mapExcept fun _ => rfl) (fun _ _ => rfl) fun _ _ => rfl

theorem traverse {f g : ι → StateM τ (Traced α)} (label : String)
    (h : ∀ i, Repaired Traced.fault? (f i) (g i)) (entries : List (String × ι)) :
    Repaired Traced.fault? (Traced.traverse f label entries)
      (Traced.traverse g label entries) := by
  refine (entryParts h entries).bind (fun _ => refl _ _) ?_ ?_
  all_goals
    intro parts fault s hparts
    cases parts with
    | ok parts => cases hparts
    | error other => exact hparts

theorem aggregate {xs ys : StateM τ (List (Traced α))} (f : List α → β) (label : String)
    (h : Repaired Traced.firstFault? xs ys) :
    Repaired Traced.fault? (do let ts ← xs; pure (Traced.aggregate f label ts))
      (do let ts ← ys; pure (Traced.aggregate f label ts)) := by
  refine h.map fun ts fault hts => ?_
  rw [Traced.fault?, Traced.result_aggregate]
  revert hts
  unfold Traced.firstFault?
  cases Traced.results ts with
  | ok as => exact fun hts => nomatch hts
  | error other => exact id

end Shown

theorem cons {x y : StateM τ (Traced α)} {xs ys : StateM τ (List (Traced α))}
    (h : Repaired Traced.fault? x y) (hs : Repaired Traced.firstFault? xs ys) :
    Repaired Traced.firstFault? (do let t ← x; let ts ← xs; pure (t :: ts))
      (do let t ← y; let ts ← ys; pure (t :: ts)) := by
  refine h.onward (fun a label children => ?_) (fun _ _ => rfl) fun _ _ => rfl
  refine hs.map fun ts fault hts => ?_
  rw [Traced.firstFault?, Traced.results]
  revert hts
  unfold Traced.firstFault?
  cases Traced.results ts with
  | ok as => exact fun hts => nomatch hts
  | error other => exact id

/-- A result that is there, or missing for another reason, stays what it is. -/
theorem result_eq {x y : StateM τ (Traced α)} (h : Repaired Traced.fault? x y) {s : τ}
    (hx : ¬ (x.run s).1.OutOfDepth) : (y.run s).1 = (x.run s).1 := by
  rcases h s with hsame | ⟨fault, hfault, hother⟩
  · rw [hsame]
  · have hfailed := ((x.run s).1.eq_failed_iff fault).mpr hfault
    rcases hother with hdeep | hy
    · cases fault with
      | tooDeep name limit => exact absurd ⟨name, limit, hfailed⟩ hx
      | _ => cases hdeep
    · rw [hfailed]
      exact ((y.run s).1.eq_failed_iff fault).mpr hy

end Repaired

/-! ## Runs -/

namespace Evaluation

variable {σ : Type}

/-- The same evaluation with another limit on how far attributes are looked into. -/
def withLimit (e : Evaluation σ) (limit : Nat) : Evaluation σ := { e with depthLimit := limit }

variable {e : Evaluation σ} {larger : Nat}

theorem repaired_termWith {deref deref' : Slot → Run σ (Traced Value)}
    (h : ∀ slot, Repaired Traced.fault? (deref slot) (deref' slot)) (t : Term Slot) :
    Repaired Traced.fault? (e.termWith deref t) ((e.withLimit larger).termWith deref' t) := by
  induction t with
  | string text | number n | request key => exact Repaired.refl _ _
  | attr slot => exact h slot
  | coerce operand kind ih => exact ih.tryMap _ _
  | binary op lhs rhs ihl ihr => exact ihl.combine _ _ ihr
  | rest url method params =>
    exact (Repaired.traverse "params" h params).flatMap _ fun _ => Repaired.refl _ _

/-- By induction on the smaller room. Where it is used up, the one run fails for the limit, and it
does not matter what the other one does. -/
theorem repaired_attrAt {room more : Nat} (hroom : room ≤ more) (chain : List Slot) (slot : Slot) :
    Repaired Traced.fault? (e.attrAt room chain slot)
      ((e.withLimit larger).attrAt more chain slot) := by
  induction room using Nat.strongRecOn generalizing more chain slot with
  | ind room ih =>
    have hset : (e.withLimit larger).set = e.set := rfl
    unfold attrAt
    rw [hset]
    cases e.set.attributes[slot]? with
    | none => exact Repaired.refl _ _
    | some a =>
      dsimp only
      split
      · exact Repaired.refl _ _
      · cases room with
        | zero => exact fun _ => .inr ⟨_, rfl, .inl rfl⟩
        | succ room =>
          obtain ⟨more, rfl⟩ : ∃ less, more = less + 1 := ⟨more - 1, by omega⟩
          have hderef := ih room (Nat.lt_succ_self room) (Nat.le_of_succ_le_succ hroom)
          exact (repaired_termWith (hderef (slot :: chain)) a.value).tryMap _ _

section Larger

variable (hle : e.depthLimit ≤ larger)

include hle

theorem repaired_term (t : Term Slot) :
    Repaired Traced.fault? (e.term t) ((e.withLimit larger).term t) :=
  repaired_termWith (repaired_attrAt hle []) t

theorem repaired_condition (c : Condition Slot) :
    Repaired Traced.fault? (e.condition c) ((e.withLimit larger).condition c) := by
  induction c with
  | not inner ih => exact ih.tryMap _ _
  | and lhs rhs ihl ihr | or lhs rhs ihl ihr => exact ihl.combine _ _ ihr
  | equal lhs rhs | greater lhs rhs =>
    exact (repaired_term hle lhs).combine _ _ (repaired_term hle rhs)

end Larger

mutual

theorem repaired_rule (hle : e.depthLimit ≤ larger) (r : Rule Slot) :
    Repaired Traced.fault? (e.rule r) ((e.withLimit larger).rule r) := by
  cases r with
  | always decision | never => exact Repaired.refl _ _
  | when condition decision => exact (repaired_condition hle condition).tryMap _ _
  | branch condition onTrue onFalse =>
    refine (repaired_condition hle condition).flatMap _ fun holds => ?_
    cases holds with
    | true => exact repaired_rule hle onTrue
    | false => exact repaired_rule hle onFalse
  | majority decision members | all decision members | any decision members | oneOf members =>
    exact (repaired_rules hle members).aggregate _ _

theorem repaired_rules (hle : e.depthLimit ≤ larger) (rs : List (Rule Slot)) :
    Repaired Traced.firstFault? (e.rules rs) ((e.withLimit larger).rules rs) := by
  cases rs with
  | nil => exact Repaired.refl _ _
  | cons r rs => exact (repaired_rule hle r).cons (repaired_rules hle rs)

end

/-- Where only other faults are raised, no result is missing for the limit. -/
theorem not_outOfDepth {α : Type} {x : Run σ (Traced α)} {y : Watched σ (Option α)}
    (hxy : Mirrors x y) (hy : Raises (·.ofDepth = false) y) (s : Session σ) :
    ¬ (x.run s).1.OutOfDepth ∧ ∀ fault ∈ (y.run ⟨s, []⟩).2.raised, fault.ofDepth = false := by
  have hraised := hy ⟨s, []⟩ fun _ hmem => nomatch hmem
  refine ⟨?_, hraised⟩
  rintro ⟨name, limit, hfailed⟩
  obtain ⟨-, -, faults, hfaults, hhead⟩ := hxy ⟨s, []⟩
  have hmem : Fault.tooDeep name limit ∈ faults := by
    apply List.mem_of_head?
    rw [hhead, hfailed]
    rfl
  rw [hfaults, List.nil_append] at hraised
  cases hraised _ hmem

/-- A higher limit on how far attributes are looked into changes no result but one that was missing
for the limit, whatever calls are made instead. A limit that is no less than the number of
attributes is never reached, not even where another fault comes first. -/
theorem higher_limit_only_repairs (e : Evaluation σ) (s : Session σ) :
    (∀ larger, e.depthLimit ≤ larger →
      (∀ t, ¬ ((e.term t).run s).1.OutOfDepth →
        (((e.withLimit larger).term t).run s).1 = ((e.term t).run s).1) ∧
      (∀ c, ¬ ((e.condition c).run s).1.OutOfDepth →
        (((e.withLimit larger).condition c).run s).1 = ((e.condition c).run s).1) ∧
      ∀ r, ¬ ((e.rule r).run s).1.OutOfDepth →
        (((e.withLimit larger).rule r).run s).1 = ((e.rule r).run s).1) ∧
    (e.set.attributes.length ≤ e.depthLimit →
      (∀ t, ¬ ((e.term t).run s).1.OutOfDepth ∧
        ∀ fault ∈ ((e.watchTerm t).run ⟨s, []⟩).2.raised, fault.ofDepth = false) ∧
      (∀ c, ¬ ((e.condition c).run s).1.OutOfDepth ∧
        ∀ fault ∈ ((e.watchCondition c).run ⟨s, []⟩).2.raised, fault.ofDepth = false) ∧
      ∀ r, ¬ ((e.rule r).run s).1.OutOfDepth ∧
        ∀ fault ∈ e.raisedBy r s, fault.ofDepth = false) := by
  constructor
  · intro larger hle
    exact ⟨fun t => (repaired_term hle t).result_eq,
      fun c => (repaired_condition hle c).result_eq,
      fun r => (repaired_rule hle r).result_eq⟩
  · intro hlimit
    exact ⟨fun t => not_outOfDepth (e.mirrors_term t) (raises_term hlimit t) s,
      fun c => not_outOfDepth (e.mirrors_condition c) (raises_condition hlimit c) s,
      fun r => not_outOfDepth (e.mirrors_rule r) (raises_rule hlimit r) s⟩

/-- Three attributes in a row with a call at the end, under a limit of one. -/
def chained : Evaluation Unit :=
  ⟨⟨[⟨"first", .attr 1⟩, ⟨"second", .attr 2⟩, ⟨"third", .rest "http://third" .get []⟩], []⟩, [],
    .disabled, 1⟩

/-- A division by zero, and next to it the first of the three attributes. -/
def divided : Term Slot :=
  .binary .plus (.binary .divide (.string "1") (.string "0")) (.attr 0)

/-- Either limit leaves the division by zero, although the higher one leads to a call. By itself the
attribute is beyond the lower limit and not beyond the higher one. -/
theorem chained_repaired :
    ((chained.watchTerm divided).run ⟨⟨(), []⟩, []⟩).2.raised =
        [.divisionByZero, .tooDeep "second" 1] ∧
      ((chained.term divided).run ⟨(), []⟩).2.calls = [] ∧
      (((chained.withLimit 3).term divided).run ⟨(), []⟩).2.calls =
        [⟨"http://third", .get, []⟩] ∧
      (((chained.withLimit 3).term divided).run ⟨(), []⟩).1 =
        ((chained.term divided).run ⟨(), []⟩).1 ∧
      ((chained.term (.attr 0)).run ⟨(), []⟩).1.OutOfDepth ∧
      ¬ (((chained.withLimit 3).term (.attr 0)).run ⟨(), []⟩).1.OutOfDepth := by
  have hdivided : ((chained.term divided).run ⟨(), []⟩).1 = .failed .divisionByZero := rfl
  have hother : ¬ ((chained.term divided).run ⟨(), []⟩).1.OutOfDepth := by
    rw [hdivided]
    rintro ⟨name, limit, hfault⟩
    cases hfault
  obtain ⟨hrepairs, -⟩ := higher_limit_only_repairs chained ⟨(), []⟩
  obtain ⟨-, hample⟩ := higher_limit_only_repairs (chained.withLimit 3) ⟨(), []⟩
  refine ⟨rfl, rfl, rfl, ?_, ⟨"second", 1, rfl⟩, ?_⟩
  · exact (hrepairs 3 (by decide)).1 divided hother
  · exact ((hample (by decide)).1 (.attr 0)).1

end Evaluation

end Policy
