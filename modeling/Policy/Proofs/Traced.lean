import Policy.Proofs.Outcome
import Policy.Traced

namespace Policy.Traced

variable {α β γ : Type}

/-! ## Results without explanations

What a step comes to depends on what its operands come to, not on how they were found. -/

@[simp] theorem result_leaf (a : α) (label : String) : (leaf a label).result = .ok a := rfl

@[simp] theorem result_failed (fault : Fault) : (failed fault : Traced α).result = .error fault :=
  rfl

@[simp] theorem result_ofResult (label : String) (children : List Explanation)
    (r : Except Fault α) : (ofResult label children r).result = r := by
  cases r with
  | error fault => rfl
  | ok value => rfl

/-- The values of all results, or the first fault among them. -/
def results : List (Traced α) → Except Fault (List α)
  | [] => .ok []
  | x :: xs => do
    let a ← x.result
    let as ← results xs
    pure (a :: as)

theorem results_eq_mapM (xs : List (Traced α)) : results xs = (xs.map result).mapM id := by
  induction xs with
  | nil => rfl
  | cons x xs ih =>
    rw [List.map_cons, List.mapM_cons, ← ih]
    rfl

/-- A value among those of a list is the value of one of its results. -/
theorem exists_of_mem_results {xs : List (Traced α)} {as : List α} (h : results xs = .ok as)
    {a : α} (ha : a ∈ as) : ∃ x ∈ xs, x.result = .ok a := by
  induction xs generalizing as with
  | nil =>
    cases h
    cases ha
  | cons x xs ih =>
    obtain ⟨b, hb, h⟩ := bind_ok_iff.mp h
    obtain ⟨bs, hbs, h⟩ := bind_ok_iff.mp h
    cases h
    rcases List.mem_cons.mp ha with rfl | ha
    · exact ⟨x, by simp, hb⟩
    · obtain ⟨y, hy, hr⟩ := ih hbs ha
      exact ⟨y, List.mem_cons_of_mem _ hy, hr⟩

section Shown

variable [Shown α]

theorem result_eq_parts (x : Traced α) : x.result = x.parts.map Prod.fst := by
  cases x with
  | success value label children => rfl
  | failed fault => rfl

theorem result_follow (label : String) (first : Explanation) (x : Traced α) :
    (x.follow label first).result = x.result := by
  cases x with
  | success value l children => rfl
  | failed fault => rfl

theorem result_tryMap (f : α → Except Fault β) (label : String) (x : Traced α) :
    (x.tryMap f label).result = x.result >>= f := by
  cases x with
  | success value l children => exact result_ofResult label _ (f value)
  | failed fault => rfl

theorem result_map (f : α → β) (label : String) (x : Traced α) :
    (x.map f label).result = x.result >>= fun a => .ok (f a) :=
  result_tryMap _ label x

theorem result_combine [Shown β] (f : α → β → Except Fault γ) (label : String) (x : Traced α)
    (y : Traced β) :
    (combine f label x y).result = x.result >>= fun a => y.result >>= f a := by
  cases x with
  | failed fault => rfl
  | success a l children =>
    cases y with
    | failed fault => rfl
    | success b l' children' =>
      simp only [combine, parts, result, ok_bind]
      exact result_ofResult label _ (f a b)

theorem results_eq_allParts (xs : List (Traced α)) :
    results xs = (allParts xs).map (List.map Prod.fst) := by
  induction xs with
  | nil => rfl
  | cons x xs ih =>
    cases x with
    | failed fault => rfl
    | success value label children =>
      simp only [results, allParts, parts, result, ok_bind, ih]
      cases allParts xs with
      | error fault => rfl
      | ok parts => rfl

theorem result_aggregate (f : List α → β) (label : String) (xs : List (Traced α)) :
    (aggregate f label xs).result = results xs >>= fun as => .ok (f as) := by
  rw [results_eq_allParts]
  unfold aggregate
  cases allParts xs with
  | error fault => rfl
  | ok parts => rfl

end Shown

/-! ## Results with explanations

A step that succeeds puts the explanations of its operands below its own, first one first. -/

section Shown

variable [Shown α] [Shown β] [Shown γ]

theorem parts_ofResult_eq_ok {label : String} {children : List Explanation} {r : Except Fault α}
    {a : α} {tree : Explanation} (h : (ofResult label children r).parts = .ok (a, tree)) :
    r = .ok a ∧ tree = .node (Shown.finding a) label children := by
  cases r with
  | error fault => cases h
  | ok value =>
    cases h
    exact ⟨rfl, rfl⟩

theorem parts_tryMap_eq_ok {f : α → Except Fault β} {label : String} {x : Traced α} {b : β}
    {tree : Explanation} (h : (x.tryMap f label).parts = .ok (b, tree)) :
    ∃ a child, x.parts = .ok (a, child) ∧ f a = .ok b ∧
      tree = .node (Shown.finding b) label [child] := by
  cases x with
  | failed fault => cases h
  | success a l children =>
    obtain ⟨hf, htree⟩ := parts_ofResult_eq_ok h
    exact ⟨a, .node (Shown.finding a) l children, rfl, hf, htree⟩

theorem parts_combine_eq_ok {f : α → β → Except Fault γ} {label : String} {x : Traced α}
    {y : Traced β} {c : γ} {tree : Explanation}
    (h : (combine f label x y).parts = .ok (c, tree)) :
    ∃ a left b right, x.parts = .ok (a, left) ∧ y.parts = .ok (b, right) ∧ f a b = .ok c ∧
      tree = .node (Shown.finding c) label [left, right] := by
  cases x with
  | failed fault => cases h
  | success a l children =>
    cases y with
    | failed fault => cases h
    | success b l' children' =>
      obtain ⟨hf, htree⟩ := parts_ofResult_eq_ok h
      exact ⟨a, .node (Shown.finding a) l children, b, .node (Shown.finding b) l' children',
        rfl, rfl, hf, htree⟩

theorem parts_follow_eq_ok {label : String} {first : Explanation} {x : Traced α} {a : α}
    {tree : Explanation} (h : (x.follow label first).parts = .ok (a, tree)) :
    ∃ second, x.parts = .ok (a, second) ∧
      tree = .node (Shown.finding a) label [first, second] := by
  cases x with
  | failed fault => cases h
  | success b l children =>
    cases h
    exact ⟨.node (Shown.finding a) l children, rfl, rfl⟩

theorem parts_aggregate_eq_ok {f : List α → β} {label : String} {xs : List (Traced α)} {b : β}
    {tree : Explanation} (h : (aggregate f label xs).parts = .ok (b, tree)) :
    ∃ parts, allParts xs = .ok parts ∧ b = f (parts.map Prod.fst) ∧
      tree = .node (Shown.finding b) label (parts.map Prod.snd) := by
  unfold aggregate at h
  cases hparts : allParts xs with
  | error fault =>
    rw [hparts] at h
    cases h
  | ok parts =>
    rw [hparts] at h
    cases h
    exact ⟨parts, rfl, rfl, rfl⟩

end Shown

end Policy.Traced
