import Policy.Proofs.Json.Pretty

namespace Policy.Json

/-! ## Documents without repeated names -/

mutual

/-- No object has two members of one name. -/
def Distinct : Json → Prop
  | null | bool _ | number _ | string _ => True
  | array items => DistinctItems items
  | object members => (members.map Prod.fst).Nodup ∧ DistinctMembers members

def DistinctItems : List Json → Prop
  | [] => True
  | x :: xs => x.Distinct ∧ DistinctItems xs

def DistinctMembers : List (String × Json) → Prop
  | [] => True
  | (_, x) :: members => x.Distinct ∧ DistinctMembers members

end

theorem distinctItems_iff (items : List Json) :
    DistinctItems items ↔ ∀ x ∈ items, x.Distinct := by
  induction items with
  | nil => simp [DistinctItems]
  | cons x xs ih => rw [DistinctItems, List.forall_mem_cons, ih]

theorem distinctMembers_iff (members : List (String × Json)) :
    DistinctMembers members ↔ ∀ m ∈ members, m.2.Distinct := by
  induction members with
  | nil => simp [DistinctMembers]
  | cons m members ih =>
    obtain ⟨name, x⟩ := m
    rw [DistinctMembers, List.forall_mem_cons, ih]

theorem Distinct.of_get {name : String} {x : Json} {members : List (String × Json)}
    (h : (object members).Distinct) (hx : get? name members = some x) : x.Distinct :=
  (distinctMembers_iff members).mp h.2 _ (mem_of_get hx)

theorem Distinct.of_mem {x : Json} {items : List Json} (h : (array items).Distinct)
    (hx : x ∈ items) : x.Distinct :=
  (distinctItems_iff items).mp h x hx

mutual

theorem distinct_of_plain (x : Json) (h : x.Plain) : x.Distinct := by
  cases x with
  | null | bool b | number n | string text => trivial
  | array items => exact distinctItems_of_plain items h
  | object members => exact ⟨h.1, distinctMembers_of_plain members h.2⟩

theorem distinctItems_of_plain (items : List Json) (h : PlainItems items) :
    DistinctItems items := by
  cases items with
  | nil => trivial
  | cons x xs => exact ⟨distinct_of_plain x h.1, distinctItems_of_plain xs h.2⟩

theorem distinctMembers_of_plain (members : List (String × Json)) (h : PlainMembers members) :
    DistinctMembers members := by
  match members with
  | [] => trivial
  | (_, x) :: members => exact ⟨distinct_of_plain x h.1, distinctMembers_of_plain members h.2⟩

end

/-! ## Documents that are read

An object collects its members, so that of a repeated name one is left. -/

theorem forall_mem_put {α : Type} {P : α → Prop} {name : String} {x : α}
    {members : List (String × α)} (h : ∀ m ∈ members, P m.2) (hx : P x) :
    ∀ m ∈ put name x members, P m.2 := by
  induction members with
  | nil => simpa [put] using hx
  | cons m members ih =>
    obtain ⟨k, y⟩ := m
    obtain ⟨hy, hrest⟩ := List.forall_mem_cons.mp h
    rw [put]
    by_cases hk : k = name
    · rw [if_pos hk]
      exact List.forall_mem_cons.mpr ⟨hx, hrest⟩
    · rw [if_neg hk]
      exact List.forall_mem_cons.mpr ⟨hy, ih hrest⟩

theorem forall_mem_collect {α : Type} {P : α → Prop} {members : List (String × α)}
    (h : ∀ m ∈ members, P m.2) : ∀ m ∈ collect members, P m.2 := by
  induction members using List.reverseRecOn with
  | nil => exact h
  | append_singleton members m ih =>
    obtain ⟨hfront, hlast⟩ := List.forall_mem_append.mp h
    rw [collect_append]
    exact forall_mem_put (ih hfront) (hlast m List.mem_cons_self)

section Reading

variable {value : List Char → Option (Json × List Char)}

theorem distinct_of_readItems (hvalue : ∀ cs x rest, value cs = some (x, rest) → x.Distinct)
    {room : Nat} {cs rest : List Char} {items : List Json}
    (h : readItems value room cs = some (items, rest)) : ∀ x ∈ items, x.Distinct := by
  induction room generalizing cs rest items with
  | zero => cases h
  | succ room ih =>
    simp only [readItems, Option.bind_eq_bind, Option.bind_eq_some_iff, Prod.exists] at h
    obtain ⟨x, behind, hx, h⟩ := h
    have hdistinct := hvalue cs x behind hx
    split at h
    · simp only [Option.bind_eq_some_iff, Prod.exists, Option.pure_def, Option.some.injEq,
        Prod.mk.injEq] at h
      obtain ⟨xs, last, hxs, rfl, -⟩ := h
      exact List.forall_mem_cons.mpr ⟨hdistinct, ih hxs⟩
    · simp only [Option.pure_def, Option.some.injEq, Prod.mk.injEq] at h
      rw [← h.1]
      simpa using hdistinct
    · cases h

theorem distinct_of_readMembers (hvalue : ∀ cs x rest, value cs = some (x, rest) → x.Distinct)
    {length room : Nat} {cs rest : List Char} {members : List (String × Json)}
    (h : readMembers length value room cs = some (members, rest)) :
    ∀ m ∈ members, m.2.Distinct := by
  induction room generalizing cs rest members with
  | zero => cases h
  | succ room ih =>
    rw [readMembers] at h
    split at h
    · simp only [Option.bind_eq_bind, Option.bind_eq_some_iff, Prod.exists] at h
      obtain ⟨name, behind, -, h⟩ := h
      split at h
      · next start _ =>
        simp only [Option.bind_eq_some_iff, Prod.exists] at h
        obtain ⟨x, behind, hx, h⟩ := h
        have hdistinct := hvalue start x behind hx
        split at h
        · simp only [Option.bind_eq_some_iff, Prod.exists, Option.pure_def, Option.some.injEq,
            Prod.mk.injEq] at h
          obtain ⟨more, last, hmore, rfl, -⟩ := h
          exact List.forall_mem_cons.mpr ⟨hdistinct, ih hmore⟩
        · simp only [Option.pure_def, Option.some.injEq, Prod.mk.injEq] at h
          rw [← h.1]
          simpa using hdistinct
        · cases h
      · cases h
    · cases h

end Reading

/-- By recursion on the levels, one of which each array and each object takes. -/
theorem distinct_of_readValue (length levels : Nat) (cs : List Char) (x : Json)
    (rest : List Char) (h : readValue length levels cs = some (x, rest)) : x.Distinct := by
  rw [readValue] at h
  split at h
  · cases h
    trivial
  · cases h
    trivial
  · cases h
    trivial
  · simp only [Option.bind_eq_bind, Option.bind_eq_some_iff, Prod.exists, Option.pure_def,
      Option.some.injEq, Prod.mk.injEq] at h
    obtain ⟨text, behind, -, rfl, -⟩ := h
    trivial
  · cases levels with
    | zero => cases h
    | succ levels =>
      have ih := distinct_of_readValue length levels
      dsimp only at h
      split at h
      · cases h
        trivial
      · simp only [Option.bind_eq_bind, Option.bind_eq_some_iff, Prod.exists, Option.pure_def,
          Option.some.injEq, Prod.mk.injEq] at h
        obtain ⟨items, behind, hitems, rfl, -⟩ := h
        exact (distinctItems_iff items).mpr (distinct_of_readItems ih hitems)
  · cases levels with
    | zero => cases h
    | succ levels =>
      have ih := distinct_of_readValue length levels
      dsimp only at h
      split at h
      · cases h
        exact ⟨List.nodup_nil, trivial⟩
      · simp only [Option.bind_eq_bind, Option.bind_eq_some_iff, Prod.exists, Option.pure_def,
          Option.some.injEq, Prod.mk.injEq] at h
        obtain ⟨members, behind, hmembers, rfl, -⟩ := h
        refine ⟨nodup_collect members, (distinctMembers_iff _).mpr ?_⟩
        exact forall_mem_collect (distinct_of_readMembers ih hmembers)
  · simp only [Option.bind_eq_bind, Option.bind_eq_some_iff, Prod.exists, Option.pure_def,
      Option.some.injEq, Prod.mk.injEq] at h
    obtain ⟨n, behind, -, rfl, -⟩ := h
    trivial

/-- In a document that is read, each object has each name once. -/
theorem distinct_of_read {text : String} {doc : Json} (h : read text = some doc) :
    doc.Distinct := by
  simp only [read] at h
  split at h
  · next x rest hvalue =>
    split at h
    · cases h
      exact distinct_of_readValue _ _ _ _ _ hvalue
    · cases h
  · cases h

end Policy.Json
