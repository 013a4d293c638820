import Policy.Evaluation

namespace Policy

variable {σ α β : Type}

theorem run_bind (first : StateM σ α) (next : α → StateM σ β) (s : σ) :
    (first >>= next).run s = (next (first.run s).1).run (first.run s).2 := rfl

theorem run_pure (a : α) (s : σ) : (pure a : StateM σ α).run s = (a, s) := rfl

/-- A computation that depends on a value starts where the value was found. -/
theorem Traced.run_flatMap [Shown α] [Shown β] (next : α → StateM σ (Traced β)) (label : String)
    (x : Traced α) (s : σ) :
    (x.flatMap next label).run s =
      match x.parts with
      | .ok (a, first) => (((next a).run s).1.follow label first, ((next a).run s).2)
      | .error fault => (.failed fault, s) := by
  unfold flatMap
  cases x.parts with
  | error fault => rfl
  | ok part => rfl

/-- A call is answered, unless calls are cancelled in the state of the far side. -/
theorem Service.run_request (service : Service σ) (call : Call) (s : Session σ) :
    (service.request call).run s =
      if service.stopped s.state then (.error (.cancelled call.url), s)
      else
        ((service.answer call s.state).1.mapError (.call call.url),
          ⟨(service.answer call s.state).2, s.calls ++ [call]⟩) := by
  have hget : (get : StateM (Session σ) (Session σ)).run s = (s, s) := rfl
  rw [request, run_bind, hget]
  dsimp only
  split
  · rfl
  · cases (service.answer call s.state).1 with
    | ok body => rfl
    | error error => rfl

/-- What looking into an attribute does: one of three checks fails, or its term is evaluated with
the attribute on the chain and room for one less. -/
theorem Evaluation.attrAt_cases (e : Evaluation σ) (room : Nat) (chain : List Slot) (slot : Slot) :
    (e.set.attributes[slot]? = none ∧
      e.attrAt room chain slot = pure (.failed (.unknownSlot slot))) ∨
    ∃ a, e.set.attributes[slot]? = some a ∧
      ((slot ∈ chain ∧ e.attrAt room chain slot = pure (.failed (.cycle a.name))) ∨
        (slot ∉ chain ∧ room = 0 ∧
          e.attrAt room chain slot = pure (.failed (.tooDeep a.name e.depthLimit))) ∨
        ∃ less, slot ∉ chain ∧ room = less + 1 ∧
          e.attrAt room chain slot = do
            let x ← e.termWith (e.attrAt less (slot :: chain)) a.value
            pure (x.map id ("attribute " ++ a.name))) := by
  rw [attrAt]
  cases e.set.attributes[slot]? with
  | none => exact .inl ⟨rfl, rfl⟩
  | some a =>
    refine .inr ⟨a, rfl, ?_⟩
    by_cases hin : slot ∈ chain
    · have hcycle : chain.contains slot = true := List.contains_iff_mem.mpr hin
      exact .inl ⟨hin, if_pos hcycle⟩
    · have hnew : ¬ chain.contains slot = true := mt List.contains_iff_mem.mp hin
      cases room with
      | zero => exact .inr (.inl ⟨hin, rfl, if_neg hnew⟩)
      | succ less => exact .inr (.inr ⟨less, hin, rfl, if_neg hnew⟩)

end Policy
