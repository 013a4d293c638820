import Policy.Json.Value
import Mathlib.Data.List.Forall2
import Mathlib.Data.List.Induction

namespace Policy.Json

variable {α : Type}

theorem put_of_notMem {name : String} {x : α} {members : List (String × α)}
    (h : name ∉ members.map Prod.fst) : put name x members = members ++ [(name, x)] := by
  induction members with
  | nil => rfl
  | cons m members ih =>
    rw [List.map_cons, List.mem_cons, not_or] at h
    obtain ⟨hne, hrest⟩ := h
    rw [put, if_neg (fun heq => hne heq.symm), ih hrest]
    rfl

theorem foldl_put_of_nodup (front back : List (String × α))
    (h : ((front ++ back).map Prod.fst).Nodup) :
    back.foldl (fun seen (name, x) => put name x seen) front = front ++ back := by
  induction back generalizing front with
  | nil => exact (List.append_nil front).symm
  | cons m back ih =>
    obtain ⟨name, x⟩ := m
    have hfresh : name ∉ front.map Prod.fst := by
      rw [List.map_append, List.map_cons] at h
      intro hmem
      exact (List.nodup_append.mp h).2.2 _ hmem _ List.mem_cons_self rfl
    have hmove : front ++ (name, x) :: back = (front ++ [(name, x)]) ++ back := by simp
    rw [hmove] at h ⊢
    show back.foldl _ (put name x front) = _
    rw [put_of_notMem hfresh]
    exact ih _ h

theorem collect_of_nodup {members : List (String × α)}
    (h : (members.map Prod.fst).Nodup) : collect members = members :=
  foldl_put_of_nodup [] members h

theorem put_map {β : Type} (f : α → β) (name : String) (x : α)
    (members : List (String × α)) :
    put name (f x) (members.map fun (k, y) => (k, f y)) =
      (put name x members).map fun (k, y) => (k, f y) := by
  induction members with
  | nil => rfl
  | cons m members ih =>
    obtain ⟨k, y⟩ := m
    simp only [List.map_cons, put]
    by_cases h : k = name
    · rw [if_pos h, if_pos h]
      rfl
    · rw [if_neg h, if_neg h, ih]
      rfl

theorem collect_map {β : Type} (f : α → β) (members : List (String × α)) :
    collect (members.map fun (k, y) => (k, f y)) =
      (collect members).map fun (k, y) => (k, f y) := by
  have hfold : ∀ seen : List (String × α),
      (members.map fun (k, y) => (k, f y)).foldl (fun seen (name, x) => put name x seen)
          (seen.map fun (k, y) => (k, f y)) =
        (members.foldl (fun seen (name, x) => put name x seen) seen).map
          fun (k, y) => (k, f y) := by
    induction members with
    | nil => exact fun seen => rfl
    | cons m members ih =>
      obtain ⟨k, y⟩ := m
      intro seen
      rw [List.map_cons, List.foldl_cons, List.foldl_cons]
      show (members.map _).foldl _ (put k (f y) _) = _
      rw [put_map]
      exact ih _
  exact hfold []

/-! ## Names of collected members -/

/-- A name that is there keeps its place, and another one comes last. -/
theorem map_fst_put (name : String) (x : α) (members : List (String × α)) :
    (put name x members).map Prod.fst =
      if name ∈ members.map Prod.fst then members.map Prod.fst
      else members.map Prod.fst ++ [name] := by
  by_cases hname : name ∈ members.map Prod.fst
  · rw [if_pos hname]
    induction members with
    | nil => cases hname
    | cons m members ih =>
      obtain ⟨k, y⟩ := m
      rw [put]
      by_cases hk : k = name
      · rw [if_pos hk]
        rfl
      · rw [if_neg hk, List.map_cons, List.map_cons]
        rcases List.mem_cons.mp hname with heq | hmem
        · exact absurd heq.symm hk
        · rw [ih hmem]
  · rw [if_neg hname, put_of_notMem hname, List.map_append]
    rfl

theorem nodup_put {name : String} {x : α} {members : List (String × α)}
    (h : (members.map Prod.fst).Nodup) : ((put name x members).map Prod.fst).Nodup := by
  rw [map_fst_put]
  by_cases hname : name ∈ members.map Prod.fst
  · rw [if_pos hname]
    exact h
  · rw [if_neg hname]
    refine List.nodup_append.mpr ⟨h, by simp, ?_⟩
    intro a ha b hb heq
    rw [List.mem_singleton] at hb
    rw [heq, hb] at ha
    exact hname ha

/-- Collected members have each name once. -/
theorem nodup_collect (members : List (String × α)) :
    ((collect members).map Prod.fst).Nodup := by
  have hfold : ∀ seen : List (String × α), (seen.map Prod.fst).Nodup →
      ((members.foldl (fun seen (name, x) => put name x seen) seen).map Prod.fst).Nodup := by
    induction members with
    | nil => exact fun seen h => h
    | cons m members ih => exact fun seen h => ih _ (nodup_put h)
  exact hfold [] List.nodup_nil

/-- Members without repeated names are those that collecting leaves alone. -/
theorem collect_eq_self_iff (members : List (String × α)) :
    collect members = members ↔ (members.map Prod.fst).Nodup := by
  constructor
  · intro h
    rw [← h]
    exact nodup_collect members
  · exact collect_of_nodup

/-! ## What collecting keeps -/

theorem get_put (name key : String) (x : α) (members : List (String × α)) :
    get? key (put name x members) = if name = key then some x else get? key members := by
  induction members with
  | nil => rfl
  | cons m members ih =>
    obtain ⟨k, y⟩ := m
    rw [put]
    by_cases hk : k = name
    · subst hk
      rw [if_pos rfl, get?, get?]
      by_cases hkey : k = key
      · rw [if_pos hkey, if_pos hkey]
      · rw [if_neg hkey, if_neg hkey, if_neg hkey]
    · rw [if_neg hk, get?, get?, ih]
      by_cases hkey : k = key
      · have hname : ¬ name = key := fun heq => hk (hkey.trans heq.symm)
        rw [if_pos hkey, if_neg hname, if_pos hkey]
      · rw [if_neg hkey, if_neg hkey]

/-- The members that are kept have each name once: in the order in which the names came up first,
and with the value that was given last. -/
structure Collected (members kept : List (String × α)) : Prop where
  names : kept.map Prod.fst = (members.map Prod.fst).eraseDups
  values : ∀ name, get? name kept = get? name members.reverse

theorem collect_append (members : List (String × α)) (name : String) (x : α) :
    collect (members ++ [(name, x)]) = put name x (collect members) := by
  rw [collect, List.foldl_append]
  rfl

/-- By induction from the back, since a later member changes what those before it left. -/
theorem collected_collect (members : List (String × α)) : Collected members (collect members) := by
  induction members using List.reverseRecOn with
  | nil => exact ⟨rfl, fun name => rfl⟩
  | append_singleton members m ih =>
    obtain ⟨name, x⟩ := m
    rw [collect_append]
    constructor
    · have hmem : name ∈ (members.map Prod.fst).eraseDups ↔ name ∈ members.map Prod.fst :=
        List.mem_eraseDups
      rw [map_fst_put, ih.names, List.map_append, List.eraseDups_append]
      by_cases hname : name ∈ members.map Prod.fst
      · rw [if_pos (hmem.mpr hname)]
        simp [List.removeAll, hname]
      · rw [if_neg (fun h => hname (hmem.mp h))]
        simp [List.removeAll, hname, List.eraseDups_cons]
    · intro key
      rw [get_put, ih.values, List.reverse_append]
      rfl

/-! ## Lookups -/

section Lookups

variable {β : Type}

theorem get_eq_none_iff {name : String} {members : List (String × α)} :
    get? name members = none ↔ name ∉ members.map Prod.fst := by
  induction members with
  | nil => simp [get?]
  | cons m members ih =>
    obtain ⟨k, x⟩ := m
    rw [get?, List.map_cons, List.mem_cons, not_or]
    by_cases hk : k = name
    · rw [if_pos hk]
      constructor
      · intro h
        cases h
      · rintro ⟨hne, -⟩
        exact absurd hk.symm hne
    · rw [if_neg hk, ih]
      exact ⟨fun h => ⟨fun heq => hk heq.symm, h⟩, And.right⟩

theorem mem_of_get {name : String} {x : α} {members : List (String × α)}
    (h : get? name members = some x) : (name, x) ∈ members := by
  induction members with
  | nil => cases h
  | cons m members ih =>
    obtain ⟨k, y⟩ := m
    rw [get?] at h
    by_cases hk : k = name
    · rw [if_pos hk] at h
      cases h
      subst hk
      exact List.mem_cons_self
    · rw [if_neg hk] at h
      exact List.mem_cons_of_mem _ (ih h)

/-- Where names are not repeated, a lookup finds each member. -/
theorem get_of_mem {m : String × α} {members : List (String × α)}
    (hnodup : (members.map Prod.fst).Nodup) (h : m ∈ members) :
    get? m.1 members = some m.2 := by
  induction members with
  | nil => cases h
  | cons n members ih =>
    obtain ⟨k, y⟩ := n
    rw [List.map_cons, List.nodup_cons] at hnodup
    rw [get?]
    rcases List.mem_cons.mp h with rfl | hmem
    · rw [if_pos rfl]
    · have hk : k ≠ m.1 := by
        rintro rfl
        exact hnodup.1 (List.mem_map.mpr ⟨m, hmem, rfl⟩)
      rw [if_neg hk]
      exact ih hnodup.2 hmem

theorem get_append_of_notMem {name : String} (members : List (String × α))
    {others : List (String × α)} (h : name ∉ others.map Prod.fst) :
    get? name (members ++ others) = get? name members := by
  induction members with
  | nil => exact get_eq_none_iff.mpr h
  | cons m members ih =>
    obtain ⟨k, x⟩ := m
    rw [List.cons_append, get?, get?, ih]

/-- Where names are not repeated, the order of members has no part in lookups. -/
theorem get_of_perm {members others : List (String × α)}
    (hnodup : (members.map Prod.fst).Nodup) (h : members.Perm others) (name : String) :
    get? name others = get? name members := by
  have hnames := h.map Prod.fst
  cases hx : get? name members with
  | none =>
    rw [get_eq_none_iff, hnames.mem_iff] at hx
    exact get_eq_none_iff.mpr hx
  | some x => exact get_of_mem (hnames.nodup_iff.mp hnodup) (h.mem_iff.mp (mem_of_get hx))

theorem get_map (f : String → α → β) (name : String) (members : List (String × α)) :
    get? name (members.map fun m => (m.1, f m.1 m.2)) = (get? name members).map (f name) := by
  induction members with
  | nil => rfl
  | cons m members ih =>
    obtain ⟨k, x⟩ := m
    rw [List.map_cons, get?, get?]
    by_cases hk : k = name
    · rw [if_pos hk, if_pos hk, Option.map_some, hk]
    · rw [if_neg hk, if_neg hk, ih]

/-- Members that correspond one by one are found under the same names. -/
theorem get_of_forall₂ {R : α → β → Prop} {members : List (String × α)}
    {others : List (String × β)}
    (h : List.Forall₂ (fun m n => m.1 = n.1 ∧ R m.2 n.2) members others) (name : String) :
    Option.Rel R (get? name members) (get? name others) := by
  induction h with
  | nil => exact .none
  | @cons m n _ _ hhead _ ih =>
    obtain ⟨k, x⟩ := m
    obtain ⟨l, y⟩ := n
    obtain ⟨rfl, hxy⟩ := hhead
    rw [get?, get?]
    by_cases hk : k = name
    · rw [if_pos hk, if_pos hk]
      exact .some hxy
    · rw [if_neg hk, if_neg hk]
      exact ih

end Lookups

end Policy.Json
