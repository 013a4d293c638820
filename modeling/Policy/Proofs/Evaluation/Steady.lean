import Policy.Proofs.Evaluation.Running
import Policy.Proofs.Traced

namespace Policy

/-! ## Values that do not depend on the session

If each answer depends on its call alone, then so does the value of a term. A run may still fail
where another one succeeds, as calls can be cancelled at any time. -/

/-- Answers depend on the call alone. -/
def Service.Stateless {σ : Type} (service : Service σ) : Prop :=
  ∀ call s t, (service.answer call s).1 = (service.answer call t).1

/-- All runs that succeed come to the same value. -/
def Steady {σ α : Type} (x : StateM σ (Traced α)) : Prop :=
  ∀ s t a b, (x.run s).1.result = .ok a → (x.run t).1.result = .ok b → a = b

namespace Steady

variable {σ α β γ ι : Type}

theorem pure (x : Traced α) : Steady (pure x : StateM σ (Traced α)) := by
  intro s t a b ha hb
  exact Except.ok.inj (ha.symm.trans hb)

section Shown

variable [Shown α] {x : StateM σ (Traced α)}

theorem tryMap (h : Steady x) (f : α → Except Fault β) (label : String) :
    Steady (do let t ← x; Pure.pure (t.tryMap f label)) := by
  intro s t c d hc hd
  simp only [run_bind, run_pure, Traced.result_tryMap] at hc hd
  obtain ⟨a, ha, hfa⟩ := bind_ok_iff.mp hc
  obtain ⟨b, hb, hfb⟩ := bind_ok_iff.mp hd
  have hab : a = b := h s t a b ha hb
  rw [hab] at hfa
  exact Except.ok.inj (hfa.symm.trans hfb)

theorem combine [Shown β] {y : StateM σ (Traced β)} (hx : Steady x) (hy : Steady y)
    (f : α → β → Except Fault γ) (label : String) :
    Steady (do let t ← x; let u ← y; Pure.pure (Traced.combine f label t u)) := by
  intro s t c d hc hd
  simp only [run_bind, run_pure, Traced.result_combine] at hc hd
  obtain ⟨a, ha, hc⟩ := bind_ok_iff.mp hc
  obtain ⟨a', ha', hc⟩ := bind_ok_iff.mp hc
  obtain ⟨b, hb, hd⟩ := bind_ok_iff.mp hd
  obtain ⟨b', hb', hd⟩ := bind_ok_iff.mp hd
  have hab : a = b := hx _ _ a b ha hb
  have hab' : a' = b' := hy _ _ a' b' ha' hb'
  rw [hab, hab'] at hc
  exact Except.ok.inj (hc.symm.trans hd)

theorem exists_of_flatMap_ok [Shown β] {next : α → StateM σ (Traced β)} {label : String} {s : σ}
    {b : β} (h : ((do let t ← x; t.flatMap next label : StateM σ (Traced β)).run s).1.result = .ok b) :
    ∃ a, (x.run s).1.result = .ok a ∧ ∃ s', ((next a).run s').1.result = .ok b := by
  simp only [run_bind, Traced.run_flatMap] at h
  cases hx : (x.run s).1 with
  | failed fault =>
    rw [hx] at h
    cases h
  | success a l children =>
    rw [hx] at h
    simp only [Traced.parts, Traced.result_follow] at h
    exact ⟨a, rfl, (x.run s).2, h⟩

theorem flatMap [Shown β] {next : α → StateM σ (Traced β)} (hx : Steady x)
    (hn : ∀ a, Steady (next a)) (label : String) : Steady (do let t ← x; t.flatMap next label) := by
  intro s t c d hc hd
  obtain ⟨a, ha, s', hc⟩ := exists_of_flatMap_ok hc
  obtain ⟨b, hb, t', hd⟩ := exists_of_flatMap_ok hd
  have hab : a = b := hx s t a b ha hb
  rw [hab] at hc
  exact hn b s' t' c d hc hd

theorem exists_of_entryParts_ok {f : ι → StateM σ (Traced α)} {name : String} {i : ι}
    {entries : List (String × ι)} {s : σ} {parts : List ((String × α) × Explanation)}
    (h : ((Traced.entryParts f ((name, i) :: entries)).run s).1 = .ok parts) :
    ∃ a, ((f i).run s).1.result = .ok a ∧ ∃ s' others,
      ((Traced.entryParts f entries).run s').1 = .ok others ∧
        parts.map Prod.fst = (name, a) :: others.map Prod.fst := by
  simp only [Traced.entryParts, run_bind] at h
  cases hx : ((f i).run s).1 with
  | failed fault =>
    rw [hx] at h
    cases h
  | success a l children =>
    rw [hx] at h
    simp only [Traced.parts, run_bind, run_pure] at h
    cases hothers : ((Traced.entryParts f entries).run ((f i).run s).2).1 with
    | error fault =>
      rw [hothers] at h
      cases h
    | ok others =>
      rw [hothers] at h
      cases h
      exact ⟨a, rfl, _, others, hothers, rfl⟩

/-- By induction on the entries, which are all taken up where a run succeeds. -/
theorem entryParts {f : ι → StateM σ (Traced α)} {entries : List (String × ι)}
    (h : ∀ entry ∈ entries, Steady (f entry.2)) {s t : σ}
    {parts parts' : List ((String × α) × Explanation)}
    (hs : ((Traced.entryParts f entries).run s).1 = .ok parts)
    (ht : ((Traced.entryParts f entries).run t).1 = .ok parts') :
    parts.map Prod.fst = parts'.map Prod.fst := by
  induction entries generalizing s t parts parts' with
  | nil =>
    cases hs
    cases ht
    rfl
  | cons entry entries ih =>
    obtain ⟨name, i⟩ := entry
    obtain ⟨hfirst, hrest⟩ := List.forall_mem_cons.mp h
    obtain ⟨a, ha, s', others, hs', hparts⟩ := exists_of_entryParts_ok hs
    obtain ⟨b, hb, t', others', ht', hparts'⟩ := exists_of_entryParts_ok ht
    have hab : a = b := hfirst s t a b ha hb
    rw [hparts, hparts', hab, ih hrest hs' ht']

theorem traverse {f : ι → StateM σ (Traced α)} {entries : List (String × ι)}
    (h : ∀ entry ∈ entries, Steady (f entry.2)) (label : String) :
    Steady (Traced.traverse f label entries) := by
  intro s t c d hc hd
  simp only [Traced.traverse, run_bind] at hc hd
  cases hs : ((Traced.entryParts f entries).run s).1 with
  | error fault =>
    rw [hs] at hc
    cases hc
  | ok parts =>
    cases ht : ((Traced.entryParts f entries).run t).1 with
    | error fault =>
      rw [ht] at hd
      cases hd
    | ok parts' =>
      rw [hs] at hc
      rw [ht] at hd
      cases hc
      cases hd
      exact entryParts h hs ht

end Shown

end Steady

/-! ## Terms -/

namespace Evaluation

variable {σ : Type} {e : Evaluation σ}

/-- A call that succeeds comes to the body of its answer. -/
theorem answer_of_call_ok {url : String} {method : Method} {params : List (String × Value)}
    {s : Session σ} {v : Value} (h : ((e.call url method params).run s).1.result = .ok v) :
    ∃ body, (e.service.answer ⟨url, method, params⟩ s.state).1 = .ok body ∧ v = .string body := by
  simp only [call, run_bind, Service.run_request] at h
  by_cases hstopped : e.service.stopped s.state = true
  · simp only [hstopped, if_true] at h
    cases h
  · simp only [hstopped] at h
    cases hanswer : (e.service.answer ⟨url, method, params⟩ s.state).1 with
    | error error =>
      rw [hanswer] at h
      cases h
    | ok body =>
      rw [hanswer] at h
      cases h
      exact ⟨body, rfl, rfl⟩

theorem steady_call (h : e.service.Stateless) (url : String) (method : Method)
    (params : List (String × Value)) : Steady (e.call url method params) := by
  intro s t v w hv hw
  obtain ⟨body, hs, rfl⟩ := answer_of_call_ok hv
  obtain ⟨body', ht, rfl⟩ := answer_of_call_ok hw
  have hsame := h ⟨url, method, params⟩ s.state t.state
  rw [hs, ht] at hsame
  cases hsame
  rfl

theorem steady_termWith (h : e.service.Stateless) {deref : Slot → Run σ (Traced Value)}
    (hderef : ∀ slot, Steady (deref slot)) (t : Term Slot) : Steady (e.termWith deref t) := by
  induction t with
  | string text => exact Steady.pure _
  | number n => exact Steady.pure _
  | attr slot => exact hderef slot
  | coerce operand kind ih => exact ih.tryMap _ _
  | binary op lhs rhs ihl ihr => exact ihl.combine ihr _ _
  | request key => exact Steady.pure _
  | rest url method params =>
    have hparams := Steady.traverse (fun entry (_ : entry ∈ params) => hderef entry.2) "params"
    exact hparams.flatMap (steady_call h url method) _

/-- By induction on the room, since each attribute leaves one less to those it refers to. -/
theorem steady_attrAt (h : e.service.Stateless) (room : Nat) (chain : List Slot) (slot : Slot) :
    Steady (e.attrAt room chain slot) := by
  induction room using Nat.strongRecOn generalizing chain slot with
  | ind room ih =>
    obtain ⟨-, hrun⟩ | ⟨a, -, ⟨-, hrun⟩ | ⟨-, -, hrun⟩ | ⟨less, -, hroom, hrun⟩⟩ :=
      e.attrAt_cases room chain slot
    · rw [hrun]
      exact Steady.pure _
    · rw [hrun]
      exact Steady.pure _
    · rw [hrun]
      exact Steady.pure _
    · rw [hrun]
      have hless : less < room := by omega
      have hvalue := steady_termWith h (ih less hless (slot :: chain)) a.value
      exact hvalue.tryMap _ _

theorem steady_term (h : e.service.Stateless) (t : Term Slot) : Steady (e.term t) :=
  steady_termWith h (steady_attrAt h e.depthLimit []) t

end Evaluation

end Policy
