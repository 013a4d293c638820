import Policy.Proofs.Evaluation.Confined

namespace Policy

/-! ## Two computations side by side

Two evaluations of one policy differ in what they are given: the far side of calls, or the request.
Their steps correspond to each other, so that a relation that each pair of steps keeps is kept by
the whole runs. -/

/-- A relation between computations over two far sides that holds of equal values and is kept by
doing one thing after another. -/
structure Sequential {σ τ : Type}
    (related : {α : Type} → StateM (Session σ) α → StateM (Session τ) α → Prop) : Prop where
  pure {α : Type} (a : α) : related (pure a) (pure a)
  bind {α β : Type} {x : StateM (Session σ) α} {y : StateM (Session τ) α}
    {next : α → StateM (Session σ) β} {next' : α → StateM (Session τ) β} (h : related x y)
    (hn : ∀ a, related (next a) (next' a)) : related (x >>= next) (y >>= next')

namespace Sequential

variable {σ τ α β ι : Type}
  {related : {α : Type} → StateM (Session σ) α → StateM (Session τ) α → Prop}

theorem flatMap [Shown α] [Shown β] (h : Sequential related)
    {next : α → StateM (Session σ) (Traced β)} {next' : α → StateM (Session τ) (Traced β)}
    (label : String) (x : Traced α)
    (hn : ∀ a, related (next a) (next' a)) :
    related (x.flatMap next label) (x.flatMap next' label) := by
  cases x with
  | failed fault => exact h.pure _
  | success a l children => exact h.bind (hn a) fun y => h.pure _

theorem entryParts [Shown α] (h : Sequential related) {f : ι → StateM (Session σ) (Traced α)}
    {g : ι → StateM (Session τ) (Traced α)} {entries : List (String × ι)}
    (hf : ∀ entry ∈ entries, related (f entry.2) (g entry.2)) :
    related (Traced.entryParts f entries) (Traced.entryParts g entries) := by
  induction entries with
  | nil => exact h.pure _
  | cons entry entries ih =>
    obtain ⟨name, i⟩ := entry
    obtain ⟨hfirst, hrest⟩ := List.forall_mem_cons.mp hf
    refine h.bind hfirst fun x => ?_
    cases x with
    | failed fault => exact h.pure _
    | success a l children => exact h.bind (ih hrest) fun parts => h.pure _

theorem traverse [Shown α] (h : Sequential related) {f : ι → StateM (Session σ) (Traced α)}
    {g : ι → StateM (Session τ) (Traced α)} (label : String) {entries : List (String × ι)}
    (hf : ∀ entry ∈ entries, related (f entry.2) (g entry.2)) :
    related (Traced.traverse f label entries) (Traced.traverse g label entries) := by
  refine h.bind (h.entryParts hf) fun parts => ?_
  cases parts with
  | error fault => exact h.pure _
  | ok parts => exact h.pure _

end Sequential

/-! ## What a term asks for -/

/-- The keys of the request that a term reads by itself. -/
def Term.keys {α : Type} : Term α → List String
  | .string _ | .number _ | .attr _ | .rest _ _ _ => []
  | .coerce operand _ => operand.keys
  | .binary _ lhs rhs => lhs.keys ++ rhs.keys
  | .request key => [key]

/-- The addresses and methods of the calls that stand in a term. -/
def Term.targets {α : Type} : Term α → List (String × Method)
  | .string _ | .number _ | .attr _ | .request _ => []
  | .coerce operand _ => operand.targets
  | .binary _ lhs rhs => lhs.targets ++ rhs.targets
  | .rest url method _ => [(url, method)]

/-! ## Runs -/

namespace Evaluation

variable {σ τ : Type}

/-- Two evaluations with the same attributes under one limit whose steps are related, as far as terms
of some kind are concerned. -/
structure Paired (related : {α : Type} → Run σ α → Run τ α → Prop) (e : Evaluation σ)
    (e' : Evaluation τ) (within : Term Slot → Prop) : Prop where
  sequential : Sequential related
  attributes : e'.set.attributes = e.set.attributes
  limit : e'.depthLimit = e.depthLimit
  lookup : ∀ t, within t → ∀ key ∈ t.keys, e'.lookup key = e.lookup key
  call : ∀ t, within t → ∀ target ∈ t.targets, ∀ values,
    related (e.service.request ⟨target.1, target.2, values⟩)
      (e'.service.request ⟨target.1, target.2, values⟩)
  next : ∀ t, within t → ∀ slot ∈ t.refs, ∀ a, e.set.attributes[slot]? = some a → within a.value

namespace Paired

variable {related : {α : Type} → Run σ α → Run τ α → Prop} {e : Evaluation σ} {e' : Evaluation τ}
  {within : Term Slot → Prop}

theorem termWith (h : Sequential related) {deref : Slot → Run σ (Traced Value)}
    {deref' : Slot → Run τ (Traced Value)} (t : Term Slot)
    (hlookup : ∀ key ∈ t.keys, e'.lookup key = e.lookup key)
    (hcall : ∀ target ∈ t.targets, ∀ values,
      related (e.service.request ⟨target.1, target.2, values⟩)
        (e'.service.request ⟨target.1, target.2, values⟩))
    (hderef : ∀ slot ∈ t.refs, related (deref slot) (deref' slot)) :
    related (e.termWith deref t) (e'.termWith deref' t) := by
  induction t with
  | string text => exact h.pure _
  | number n => exact h.pure _
  | attr slot => exact hderef slot (List.mem_singleton_self slot)
  | coerce operand kind ih => exact h.bind (ih hlookup hcall hderef) fun x => h.pure _
  | binary op lhs rhs ihl ihr =>
    obtain ⟨hll, hlr⟩ := List.forall_mem_append.mp hlookup
    obtain ⟨hcl, hcr⟩ := List.forall_mem_append.mp hcall
    obtain ⟨hdl, hdr⟩ := List.forall_mem_append.mp hderef
    refine h.bind (ihl hll hcl hdl) fun x => ?_
    exact h.bind (ihr hlr hcr hdr) fun y => h.pure _
  | request key =>
    have hkey := hlookup key (List.mem_singleton_self key)
    have hpure := h.pure (e.lookup key)
    rw [Evaluation.termWith, Evaluation.termWith, hkey]
    exact hpure
  | rest url method params =>
    have hparams := h.traverse "params" (List.forall_mem_map.mp hderef)
    refine h.bind hparams fun values => h.flatMap _ values fun values => ?_
    refine h.bind (hcall (url, method) (List.mem_singleton_self _) values) fun answer => ?_
    cases answer with
    | ok body => exact h.pure _
    | error fault => exact h.pure _

/-- By induction on the room, since each attribute leaves one less to those it refers to. -/
theorem attrAt (h : Paired related e e' within) (room : Nat) (chain : List Slot) (slot : Slot)
    (hslot : ∀ a, e.set.attributes[slot]? = some a → within a.value) :
    related (e.attrAt room chain slot) (e'.attrAt room chain slot) := by
  induction room using Nat.strongRecOn generalizing chain slot with
  | ind room ih =>
    unfold Evaluation.attrAt
    rw [h.attributes, h.limit]
    cases ha : e.set.attributes[slot]? with
    | none => exact h.sequential.pure _
    | some a =>
      have hvalue := hslot a ha
      dsimp only
      split
      · exact h.sequential.pure _
      · cases room with
        | zero => exact h.sequential.pure _
        | succ room =>
          refine h.sequential.bind ?_ fun x => h.sequential.pure _
          refine termWith h.sequential a.value (h.lookup _ hvalue) (h.call _ hvalue) ?_
          intro next hnext
          exact ih room (Nat.lt_succ_self room) _ next (h.next _ hvalue next hnext)

theorem termAt (h : Paired related e e' within) (room : Nat) (chain : List Slot) {t : Term Slot}
    (ht : within t) :
    related (e.termWith (e.attrAt room chain) t) (e'.termWith (e'.attrAt room chain) t) := by
  refine termWith h.sequential t (h.lookup t ht) (h.call t ht) fun slot hslot => ?_
  exact h.attrAt room chain slot (h.next t ht slot hslot)

theorem term (h : Paired related e e' within) {t : Term Slot} (ht : within t) :
    related (e.term t) (e'.term t) := by
  have hterm := h.termAt e.depthLimit [] ht
  rw [Evaluation.term, Evaluation.term, h.limit]
  exact hterm

theorem condition (h : Paired related e e' within) (c : Condition Slot)
    (hterms : ∀ t ∈ c.terms, within t) : related (e.condition c) (e'.condition c) := by
  have hpair : ∀ {lhs rhs : Term Slot}, (∀ t ∈ [lhs, rhs], within t) →
      ∀ {f : Traced Value → Traced Value → Traced Bool},
        related (do let x ← e.term lhs; let y ← e.term rhs; pure (f x y))
          (do let x ← e'.term lhs; let y ← e'.term rhs; pure (f x y)) := by
    intro lhs rhs hboth f
    have hl := h.term (hboth lhs (by simp))
    have hr := h.term (hboth rhs (by simp))
    exact h.sequential.bind hl fun x => h.sequential.bind hr fun y => h.sequential.pure _
  induction c with
  | not inner ih => exact h.sequential.bind (ih hterms) fun x => h.sequential.pure _
  | and lhs rhs ihl ihr | or lhs rhs ihl ihr =>
    obtain ⟨hl, hr⟩ := List.forall_mem_append.mp hterms
    refine h.sequential.bind (ihl hl) fun x => ?_
    exact h.sequential.bind (ihr hr) fun y => h.sequential.pure _
  | equal lhs rhs => exact hpair hterms
  | greater lhs rhs => exact hpair hterms

mutual

theorem rule (h : Paired related e e' within) (r : Rule Slot)
    (hterms : ∀ t ∈ r.terms, within t) : related (e.rule r) (e'.rule r) := by
  cases r with
  | always decision | never => exact h.sequential.pure _
  | when condition decision =>
    exact h.sequential.bind (h.condition condition hterms) fun x => h.sequential.pure _
  | branch condition onTrue onFalse =>
    obtain ⟨hterms, hfalse⟩ := List.forall_mem_append.mp hterms
    obtain ⟨hcondition, htrue⟩ := List.forall_mem_append.mp hterms
    refine h.sequential.bind (h.condition condition hcondition) fun x => ?_
    refine h.sequential.flatMap _ x fun holds => ?_
    cases holds with
    | true => exact rule h onTrue htrue
    | false => exact rule h onFalse hfalse
  | majority decision members | all decision members | any decision members | oneOf members =>
    exact h.sequential.bind (rules h members hterms) fun xs => h.sequential.pure _

theorem rules (h : Paired related e e' within) (rs : List (Rule Slot))
    (hterms : ∀ t ∈ Rule.memberTerms rs, within t) : related (e.rules rs) (e'.rules rs) := by
  cases rs with
  | nil => exact h.sequential.pure _
  | cons r rs =>
    obtain ⟨hr, hrs⟩ := List.forall_mem_append.mp hterms
    refine h.sequential.bind (rule h r hr) fun x => ?_
    exact h.sequential.bind (rules h rs hrs) fun xs => h.sequential.pure _

end

end Paired

end Evaluation

end Policy
