import Policy.Proofs.Evaluation.Running
import Policy.Proofs.Traced

namespace Policy

/-! ## What computations stay within

A computation is described by the values that it may come to and the faults that it may fail with.
There is one rule for each way in which the evaluator joins results. -/

/-- A success has a good value and a failure a fault that is allowed. -/
def Meets {α : Type} (good : α → Prop) (allowed : Fault → Prop) : Except Fault α → Prop
  | .ok a => good a
  | .error fault => allowed fault

namespace Meets

variable {α β : Type} {good : α → Prop} {good' : β → Prop} {allowed : Fault → Prop}

theorem bind {r : Except Fault α} {next : α → Except Fault β} (h : Meets good allowed r)
    (hn : ∀ a, good a → Meets good' allowed (next a)) : Meets good' allowed (r >>= next) := by
  cases r with
  | ok a => exact hn a h
  | error fault => exact h

theorem imp {r : Except Fault α} {good'' : α → Prop} {allowed' : Fault → Prop}
    (h : Meets good allowed r) (hg : ∀ a, good a → good'' a)
    (ha : ∀ fault, allowed fault → allowed' fault) : Meets good'' allowed' r := by
  cases r with
  | ok a => exact hg a h
  | error fault => exact ha fault h

end Meets

/-- Wherever it starts, the computation comes to a good value or to a fault that is allowed. -/
def Ensures {σ α : Type} (good : α → Prop) (allowed : Fault → Prop)
    (x : StateM σ (Traced α)) : Prop :=
  ∀ s, Meets good allowed (x.run s).1.result

namespace Ensures

variable {σ α β γ ι : Type} {allowed : Fault → Prop} {good : α → Prop} {good' : β → Prop}
  {good'' : γ → Prop}

theorem of_leaf {a : α} (label : String) (h : good a) :
    Ensures good allowed (pure (.leaf a label) : StateM σ (Traced α)) :=
  fun _ => h

theorem of_failed {fault : Fault} (h : allowed fault) :
    Ensures good allowed (pure (.failed fault) : StateM σ (Traced α)) :=
  fun _ => h

theorem imp {x : StateM σ (Traced α)} {better : α → Prop} {fewer : Fault → Prop}
    (h : Ensures better fewer x) (hg : ∀ a, better a → good a)
    (ha : ∀ fault, fewer fault → allowed fault) : Ensures good allowed x :=
  fun s => (h s).imp hg ha

section Shown

variable [Shown α] {x : StateM σ (Traced α)}

theorem tryMap {f : α → Except Fault γ} (label : String) (h : Ensures good allowed x)
    (hf : ∀ a, good a → Meets good'' allowed (f a)) :
    Ensures good'' allowed (do let t ← x; pure (t.tryMap f label)) := by
  intro s
  simp only [run_bind, run_pure, Traced.result_tryMap]
  exact (h s).bind hf

theorem map {f : α → γ} (label : String) (h : Ensures good allowed x)
    (hf : ∀ a, good a → good'' (f a)) :
    Ensures good'' allowed (do let t ← x; pure (t.map f label)) :=
  tryMap label h hf

theorem combine [Shown β] {y : StateM σ (Traced β)} {f : α → β → Except Fault γ} (label : String)
    (hx : Ensures good allowed x) (hy : Ensures good' allowed y)
    (hf : ∀ a b, good a → good' b → Meets good'' allowed (f a b)) :
    Ensures good'' allowed (do let t ← x; let u ← y; pure (Traced.combine f label t u)) := by
  intro s
  simp only [run_bind, run_pure, Traced.result_combine]
  refine (hx s).bind fun a ha => ?_
  exact (hy (x.run s).2).bind fun b hb => hf a b ha hb

theorem flatMap [Shown β] {next : α → StateM σ (Traced β)} (label : String)
    (h : Ensures good allowed x) (hn : ∀ a, good a → Ensures good' allowed (next a)) :
    Ensures good' allowed (do let t ← x; t.flatMap next label) := by
  intro s
  have hx := h s
  rw [Traced.result_eq_parts] at hx
  simp only [run_bind, Traced.run_flatMap]
  cases hp : (x.run s).1.parts with
  | error fault =>
    rw [hp] at hx
    exact hx
  | ok part =>
    rw [hp] at hx
    simp only [Traced.result_follow]
    exact hn part.1 hx _

theorem entryParts {f : ι → StateM σ (Traced α)} {sound : ι → Prop}
    {entries : List (String × ι)}
    (h : ∀ entry ∈ entries, Ensures (fun a => good a ∧ sound entry.2) allowed (f entry.2)) (s : σ) :
    Meets (fun parts => (∀ part ∈ parts, good part.1.2) ∧ ∀ entry ∈ entries, sound entry.2) allowed
      ((Traced.entryParts f entries).run s).1 := by
  induction entries generalizing s with
  | nil => exact ⟨by simp, by simp⟩
  | cons entry entries ih =>
    obtain ⟨name, i⟩ := entry
    obtain ⟨hfirst, hrest⟩ := List.forall_mem_cons.mp h
    have hx := hfirst s
    rw [Traced.result_eq_parts] at hx
    simp only [Traced.entryParts, run_bind]
    cases hp : ((f i).run s).1.parts with
    | error fault =>
      rw [hp] at hx
      exact hx
    | ok part =>
      rw [hp] at hx
      have hparts := ih hrest ((f i).run s).2
      simp only [run_bind, run_pure]
      cases hps : ((Traced.entryParts f entries).run ((f i).run s).2).1 with
      | error fault =>
        rw [hps] at hparts
        exact hparts
      | ok parts =>
        rw [hps] at hparts
        exact ⟨List.forall_mem_cons.mpr ⟨hx.1, hparts.1⟩,
          List.forall_mem_cons.mpr ⟨hx.2, hparts.2⟩⟩

/-- A success took up all entries, so that what each of them shows can be relied on. -/
theorem traverse {f : ι → StateM σ (Traced α)} {sound : ι → Prop} (label : String)
    {entries : List (String × ι)}
    (h : ∀ entry ∈ entries, Ensures (fun a => good a ∧ sound entry.2) allowed (f entry.2)) :
    Ensures (fun values => (∀ v ∈ values, good v.2) ∧ ∀ entry ∈ entries, sound entry.2) allowed
      (Traced.traverse f label entries) := by
  intro s
  have hparts := entryParts h s
  simp only [Traced.traverse, run_bind]
  cases hps : ((Traced.entryParts f entries).run s).1 with
  | error fault =>
    rw [hps] at hparts
    exact hparts
  | ok parts =>
    rw [hps] at hparts
    exact ⟨List.forall_mem_map.mpr hparts.1, hparts.2⟩

end Shown

end Ensures

/-! ## Terms of conditions and rules -/

/-- The texts that stand in a term: strings, keys of requests and addresses. -/
def Term.texts {α : Type} : Term α → List String
  | .string text => [text]
  | .number _ | .attr _ => []
  | .coerce operand _ => operand.texts
  | .binary _ lhs rhs => lhs.texts ++ rhs.texts
  | .request key => [key]
  | .rest url _ _ => [url]

def Condition.terms {α : Type} : Condition α → List (Term α)
  | .not inner => inner.terms
  | .and lhs rhs | .or lhs rhs => lhs.terms ++ rhs.terms
  | .equal lhs rhs | .greater lhs rhs => [lhs, rhs]

mutual

def Rule.terms {α : Type} : Rule α → List (Term α)
  | .always _ | .never => []
  | .when condition _ => condition.terms
  | .branch condition onTrue onFalse => condition.terms ++ onTrue.terms ++ onFalse.terms
  | .majority _ members | .all _ members | .any _ members | .oneOf members =>
    Rule.memberTerms members

def Rule.memberTerms {α : Type} : List (Rule α) → List (Term α)
  | [] => []
  | rule :: rules => rule.terms ++ Rule.memberTerms rules

end

/-! ## Runs -/

namespace Evaluation

variable {σ : Type}

/-- What can come of looking into an attribute: one fault for each check, or the value. -/
theorem ensures_attrAt {e : Evaluation σ} {good : Value → Prop} {allowed : Fault → Prop}
    {room : Nat} {chain : List Slot} {slot : Slot}
    (hnone : e.set.attributes[slot]? = none → allowed (.unknownSlot slot))
    (hcycle : ∀ a, e.set.attributes[slot]? = some a → slot ∈ chain → allowed (.cycle a.name))
    (hdeep : ∀ a, e.set.attributes[slot]? = some a → room = 0 →
      allowed (.tooDeep a.name e.depthLimit))
    (hvalue : ∀ a less, e.set.attributes[slot]? = some a → room = less + 1 →
      Ensures good allowed (e.termWith (e.attrAt less (slot :: chain)) a.value)) :
    Ensures good allowed (e.attrAt room chain slot) := by
  obtain ⟨ha, hrun⟩ | ⟨a, ha, ⟨hin, hrun⟩ | ⟨-, hroom, hrun⟩ | ⟨less, -, hroom, hrun⟩⟩ :=
    e.attrAt_cases room chain slot
  · rw [hrun]
    exact Ensures.of_failed (hnone ha)
  · rw [hrun]
    exact Ensures.of_failed (hcycle a ha hin)
  · rw [hrun]
    exact Ensures.of_failed (hdeep a ha hroom)
  · rw [hrun]
    exact (hvalue a less ha hroom).map _ fun _ hv => hv

/-- The steps of an evaluation lead from plain texts and good values to good values, or fail with
faults that are allowed. -/
structure Confines (e : Evaluation σ) (plain : String → Prop) (good : Value → Prop)
    (allowed : Fault → Prop) : Prop where
  string : ∀ text, plain text → good (.string text)
  number : ∀ n, good (.number n)
  lookup : ∀ key, plain key → Meets good allowed (e.lookup key).result
  coerce : ∀ v kind, good v → Meets good allowed (v.coerce kind)
  apply : ∀ op a b, good a → good b → Meets good allowed (Value.apply op a b)
  greater : ∀ a b, good a → good b → Meets (fun _ => True) allowed (a.greater b)
  call : ∀ url method params, plain url → (∀ p ∈ params, good p.2) →
    Ensures good allowed (e.call url method params)

namespace Confines

variable {e : Evaluation σ} {plain : String → Prop} {good : Value → Prop} {allowed : Fault → Prop}

/-- A term that succeeds took up every attribute that it refers to. -/
theorem termWith (h : e.Confines plain good allowed) {deref : Slot → Run σ (Traced Value)}
    {sound : Slot → Prop} (t : Term Slot) (htexts : ∀ text ∈ t.texts, plain text)
    (hderef : ∀ slot ∈ t.refs, Ensures (fun v => good v ∧ sound slot) allowed (deref slot)) :
    Ensures (fun v => good v ∧ ∀ slot ∈ t.refs, sound slot) allowed (e.termWith deref t) := by
  induction t with
  | string text =>
    have htext := htexts text (List.mem_singleton_self text)
    exact Ensures.of_leaf _ ⟨h.string text htext, by simp [Term.refs]⟩
  | number n => exact Ensures.of_leaf _ ⟨h.number n, by simp [Term.refs]⟩
  | attr slot =>
    have hslot := hderef slot (List.mem_singleton_self slot)
    refine hslot.imp (fun v hv => ⟨hv.1, ?_⟩) (fun _ hf => hf)
    simpa [Term.refs] using hv.2
  | coerce operand kind ih =>
    refine (ih htexts hderef).tryMap _ fun v hv => ?_
    exact (h.coerce v kind hv.1).imp (fun w hw => ⟨hw, hv.2⟩) (fun _ hf => hf)
  | binary op lhs rhs ihl ihr =>
    obtain ⟨htl, htr⟩ := List.forall_mem_append.mp htexts
    obtain ⟨hdl, hdr⟩ := List.forall_mem_append.mp hderef
    refine (ihl htl hdl).combine _ (ihr htr hdr) fun a b ha hb => ?_
    refine (h.apply op a b ha.1 hb.1).imp (fun w hw => ⟨hw, ?_⟩) (fun _ hf => hf)
    exact List.forall_mem_append.mpr ⟨ha.2, hb.2⟩
  | request key =>
    have hkey := h.lookup key (htexts key (List.mem_singleton_self key))
    intro s
    exact hkey.imp (fun v hv => ⟨hv, by simp [Term.refs]⟩) (fun _ hf => hf)
  | rest url method params =>
    have hurl := htexts url (List.mem_singleton_self url)
    have hparams : Ensures
        (fun values => (∀ v ∈ values, good v.2) ∧ ∀ p ∈ params, sound p.2) allowed
        (Traced.traverse deref "params" params) :=
      Ensures.traverse "params" (List.forall_mem_map.mp hderef)
    refine hparams.flatMap _ fun values hv => ?_
    refine (h.call url method values hurl hv.1).imp (fun w hw => ⟨hw, ?_⟩) (fun _ hf => hf)
    exact List.forall_mem_map.mpr hv.2

theorem termWith_of_forall (h : e.Confines plain good allowed)
    {deref : Slot → Run σ (Traced Value)} (t : Term Slot) (htexts : ∀ text ∈ t.texts, plain text)
    (hderef : ∀ slot, Ensures good allowed (deref slot)) :
    Ensures good allowed (e.termWith deref t) := by
  have hsound : ∀ slot ∈ t.refs, Ensures (fun v => good v ∧ True) allowed (deref slot) :=
    fun slot _ => (hderef slot).imp (fun v hv => ⟨hv, trivial⟩) fun _ hf => hf
  exact (h.termWith t htexts hsound).imp (fun v hv => hv.1) fun _ hf => hf

theorem condition (h : e.Confines plain good allowed) (c : Condition Slot)
    (hterms : ∀ t ∈ c.terms, Ensures good allowed (e.term t)) :
    Ensures (fun _ => True) allowed (e.condition c) := by
  induction c with
  | not inner ih => exact (ih hterms).map _ fun _ _ => trivial
  | and lhs rhs ihl ihr | or lhs rhs ihl ihr =>
    obtain ⟨hl, hr⟩ := List.forall_mem_append.mp hterms
    exact (ihl hl).combine _ (ihr hr) fun _ _ _ _ => trivial
  | equal lhs rhs =>
    have hl := hterms lhs (by simp [Condition.terms])
    have hr := hterms rhs (by simp [Condition.terms])
    exact hl.combine _ hr fun _ _ _ _ => trivial
  | greater lhs rhs =>
    have hl := hterms lhs (by simp [Condition.terms])
    have hr := hterms rhs (by simp [Condition.terms])
    exact hl.combine _ hr h.greater

/-- The faults of a group are those of its members. -/
theorem group {members : Run σ (List (Traced Decision))}
    (h : ∀ s, ∀ x ∈ (members.run s).1, Meets (fun _ => True) allowed x.result)
    (f : List Decision → Decision) (label : String) :
    Ensures (fun _ => True) allowed (do let xs ← members; pure (Traced.aggregate f label xs)) := by
  intro s
  simp only [run_bind, run_pure, Traced.result_aggregate]
  have hresults : ∀ xs : List (Traced Decision),
      (∀ x ∈ xs, Meets (fun _ => True) allowed x.result) →
        Meets (fun _ => True) allowed (Traced.results xs) := by
    intro xs
    induction xs with
    | nil => exact fun _ => trivial
    | cons x xs ih =>
      intro hxs
      obtain ⟨hx, hrest⟩ := List.forall_mem_cons.mp hxs
      exact hx.bind fun _ _ => (ih hrest).bind fun _ _ => trivial
  exact (hresults _ (h s)).bind fun _ _ => trivial

mutual

theorem rule (h : e.Confines plain good allowed) (r : Rule Slot)
    (hterms : ∀ t ∈ r.terms, Ensures good allowed (e.term t)) :
    Ensures (fun _ => True) allowed (e.rule r) := by
  cases r with
  | always decision | never => exact Ensures.of_leaf _ trivial
  | when condition decision => exact (h.condition condition hterms).map _ fun _ _ => trivial
  | branch condition onTrue onFalse =>
    obtain ⟨hterms, hfalse⟩ := List.forall_mem_append.mp hterms
    obtain ⟨hcondition, htrue⟩ := List.forall_mem_append.mp hterms
    refine (h.condition condition hcondition).flatMap _ fun holds _ => ?_
    cases holds with
    | true => exact rule h onTrue htrue
    | false => exact rule h onFalse hfalse
  | majority decision members => exact group (rules h members hterms) _ _
  | all decision members => exact group (rules h members hterms) _ _
  | any decision members => exact group (rules h members hterms) _ _
  | oneOf members => exact group (rules h members hterms) _ _

theorem rules (h : e.Confines plain good allowed) (rs : List (Rule Slot))
    (hterms : ∀ t ∈ Rule.memberTerms rs, Ensures good allowed (e.term t)) (s : Session σ) :
    ∀ x ∈ ((e.rules rs).run s).1, Meets (fun _ => True) allowed x.result := by
  cases rs with
  | nil => exact fun x hx => nomatch hx
  | cons r rs =>
    obtain ⟨hr, hrs⟩ := List.forall_mem_append.mp hterms
    exact List.forall_mem_cons.mpr ⟨rule h r hr s, rules h rs hrs _⟩

end

end Confines

end Evaluation

end Policy
