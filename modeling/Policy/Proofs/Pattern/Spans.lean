import Mathlib.Data.List.Perm.Subperm
import Policy.Pattern.Matcher

namespace Policy.Pattern

/-! ## The part of a text that a matcher takes -/

/-- So many steps of a relation, one behind the other. -/
def Repeats (R : Nat → Nat → Prop) : Nat → Nat → Nat → Prop
  | 0, i, k => i = k
  | n + 1, i, k => ∃ j, R i j ∧ Repeats R n j k

/-- The matcher takes the characters between two places of a text. -/
def Spans (text : Array Char) : Matcher → Nat → Nat → Prop
  | .empty, i, j => j = i
  | .one s, i, j => j = i + 1 ∧ ∃ c, text[i]? = some c ∧ s.contains c = true
  | .look l, i, j => j = i ∧ l.holds (if i = 0 then none else text[i - 1]?) text[i]? = true
  | .seq p q, i, k => ∃ j, Spans text p i j ∧ Spans text q j k
  | .alt p q, i, j => Spans text p i j ∨ Spans text q i j
  | .repeated p least most, i, j =>
    ∃ extra, (∀ most' ∈ most, extra ≤ most' - least) ∧ Repeats (Spans text p) (least + extra) i j

namespace Repeats

variable {R : Nat → Nat → Prop} {m n i j k : Nat}

theorem add_iff : Repeats R (m + n) i k ↔ ∃ j, Repeats R m i j ∧ Repeats R n j k := by
  induction m generalizing i with
  | zero => simp [Repeats]
  | succ m ih =>
    rw [Nat.succ_add]
    simp only [Repeats, ih]
    constructor
    · rintro ⟨j, hj, t, ht, hn⟩
      exact ⟨t, ⟨j, hj, ht⟩, hn⟩
    · rintro ⟨t, ⟨j, hj, ht⟩, hn⟩
      exact ⟨j, hj, t, ht, hn⟩

end Repeats

/-! ## Lists of places -/

namespace Matcher

variable {is js : List Nat} {x : Nat}

@[simp] theorem mem_merge : x ∈ merge is js ↔ x ∈ is ∨ x ∈ js := by
  fun_induction merge is js with
  | case1 => simp
  | case2 => simp
  | case3 is j js ih => simp [ih]; tauto
  | case4 i is j js _ _ ih => simp_all; tauto
  | case5 i is j js _ _ ih => simp_all; tauto

theorem merge_descending (hi : is.Pairwise (· > ·)) (hj : js.Pairwise (· > ·)) :
    (merge is js).Pairwise (· > ·) := by
  fun_induction merge is js with
  | case1 => exact hj
  | case2 => exact hi
  | case3 is j js ih =>
    rw [List.pairwise_cons] at hi hj ⊢
    exact ⟨fun x hx => (mem_merge.mp hx).elim (hi.1 x) (hj.1 x), ih hi.2 hj.2⟩
  | case4 i is j js _ hji ih =>
    have hj' := List.pairwise_cons.mp hj
    rw [List.pairwise_cons] at hi ⊢
    refine ⟨fun x hx => (mem_merge.mp hx).elim (hi.1 x) fun hx => ?_, ih hi.2 hj⟩
    obtain rfl | hx := List.mem_cons.mp hx
    · exact hji
    · exact Nat.lt_trans (hj'.1 x hx) hji
  | case5 i is j js hne hji ih =>
    have hi' := List.pairwise_cons.mp hi
    have hij : i < j := by omega
    rw [List.pairwise_cons] at hj ⊢
    refine ⟨fun x hx => (mem_merge.mp hx).elim (fun hx => ?_) (hj.1 x), ih hi hj.2⟩
    obtain rfl | hx := List.mem_cons.mp hx
    · exact hij
    · exact Nat.lt_trans (hi'.1 x hx) hij

theorem mem_without (hi : is.Pairwise (· > ·)) (hj : js.Pairwise (· > ·)) :
    x ∈ without is js ↔ x ∈ is ∧ x ∉ js := by
  fun_induction without is js with
  | case1 => simp
  | case2 => simp
  | case3 is j js ih =>
    rw [List.pairwise_cons] at hi hj
    have hx : x ∈ is → x ≠ j := fun hx => Nat.ne_of_lt (hi.1 x hx)
    rw [ih hi.2 hj.2]
    simp only [List.mem_cons]
    tauto
  | case4 i is j js hne hji ih =>
    have hj' := List.pairwise_cons.mp hj
    rw [List.pairwise_cons] at hi
    -- The first place is larger than all that are taken away.
    have hi' : i ∉ j :: js := by
      rintro (_ | ⟨_, hx⟩)
      · exact hne rfl
      · exact absurd (hj'.1 i hx) (by omega)
    rw [List.mem_cons, List.mem_cons, ih hi.2 hj]
    by_cases hxi : x = i
    · subst hxi
      simp [hi']
    · simp [hxi]
  | case5 i is j js hne hji ih =>
    have hi' := List.pairwise_cons.mp hi
    rw [List.pairwise_cons] at hj
    have hx : x ∈ i :: is → x ≠ j := by
      rintro (_ | ⟨_, hx⟩)
      · omega
      · have := hi'.1 x hx
        omega
    rw [ih hi hj.2]
    simp only [List.mem_cons] at hx ⊢
    tauto

theorem without_sublist : (without is js).Sublist is := by
  fun_induction without is js with
  | case1 => exact .slnil
  | case2 => exact .refl _
  | case3 is j js ih => exact ih.cons _
  | case4 i is j js _ _ ih => exact ih.cons_cons _
  | case5 i is j js _ _ ih => exact ih

theorem length_merge (h : ∀ i ∈ is, i ∉ js) : (merge is js).length = is.length + js.length := by
  fun_induction merge is js with
  | case1 => simp
  | case2 => simp
  | case3 is j js ih => exact absurd List.mem_cons_self (h j List.mem_cons_self)
  | case4 i is j js _ _ ih =>
    rw [List.length_cons, ih fun x hx => h x (List.mem_cons_of_mem _ hx), List.length_cons,
      List.length_cons]
    omega
  | case5 i is j js _ _ ih =>
    rw [List.length_cons, ih fun x hx hj => h x hx (List.mem_cons_of_mem _ hj), List.length_cons,
      List.length_cons]
    omega

end Matcher

/-- Places of a text of the given size, from the last one down. -/
structure Places (size : Nat) (is : List Nat) : Prop where
  descending : is.Pairwise (· > ·)
  within : ∀ i ∈ is, i ≤ size

theorem Places.length_le {size : Nat} {is : List Nat} (h : Places size is) :
    is.length ≤ size + 1 := by
  have hd : is.Nodup := h.descending.imp Nat.ne_of_gt
  have hs : is ⊆ List.range (size + 1) := fun i hi =>
    List.mem_range.mpr (Nat.lt_succ_of_le (h.within i hi))
  simpa using (List.subperm_of_subset hd hs).length_le

theorem Places.merge {size : Nat} {is js : List Nat} (hi : Places size is) (hj : Places size js) :
    Places size (Matcher.merge is js) :=
  ⟨Matcher.merge_descending hi.descending hj.descending, fun x hx =>
    (Matcher.mem_merge.mp hx).elim (hi.within x) (hj.within x)⟩

theorem Places.sublist {size : Nat} {is js : List Nat} (hj : Places size js) (h : is.Sublist js) :
    Places size is :=
  ⟨hj.descending.sublist h, fun x hx => hj.within x (h.subset hx)⟩

/-- A step takes a list of places to all places that a relation leads to. -/
structure Follows (size : Nat) (R : Nat → Nat → Prop) (step : List Nat → List Nat) : Prop where
  places {is : List Nat} (h : Places size is) : Places size (step is)
  mem {is : List Nat} (h : Places size is) (j : Nat) : j ∈ step is ↔ ∃ i ∈ is, R i j

namespace Follows

open Matcher

variable {size : Nat} {R : Nat → Nat → Prop} {step : List Nat → List Nat}

theorem times (h : Follows size R step) (n : Nat) :
    Follows size (Repeats R n) (Matcher.times step n) := by
  induction n with
  | zero => exact ⟨fun h => h, fun _ j => by simp [Matcher.times, Repeats]⟩
  | succ n ih =>
    constructor
    · intro is hi
      rw [Matcher.times]
      split
      · exact ⟨.nil, by simp⟩
      · exact ih.places (h.places hi)
    · intro is hi j
      rw [Matcher.times]
      split
      · rename_i he
        simp [List.isEmpty_iff.mp he]
      · rw [ih.mem (h.places hi)]
        simp only [h.mem hi, Repeats]
        constructor
        · rintro ⟨k, ⟨i, hi, hk⟩, hj⟩
          exact ⟨i, hi, k, hk, hj⟩
        · rintro ⟨i, hi, k, hk, hj⟩
          exact ⟨k, ⟨i, hi, hk⟩, hj⟩

/-! ## Places that are found in rounds -/

section

variable {n : Nat} {seen fresh : List Nat}

theorem upTo_places (h : Follows size R step) (hs : Places size seen) (hf : Places size fresh) :
    Places size (upTo step n seen fresh) := by
  induction n generalizing seen fresh with
  | zero => exact hs
  | succ n ih =>
    have hnew : Places size (without (step fresh) seen) := (h.places hf).sublist without_sublist
    rw [upTo]
    split
    · exact hs
    · exact ih (hnew.merge hs) hnew

theorem seen_upTo {x : Nat} (hx : x ∈ seen) : x ∈ upTo step n seen fresh := by
  induction n generalizing seen fresh with
  | zero => exact hx
  | succ n ih =>
    rw [upTo]
    split
    · exact hx
    · exact ih (mem_merge.mpr (.inr hx))

/-- All that is found was there, or is some steps away from where the rounds begin. -/
theorem upTo_sound (h : Follows size R step) (hs : Places size seen) (hf : Places size fresh)
    {x : Nat} (hx : x ∈ upTo step n seen fresh) :
    x ∈ seen ∨ ∃ i ∈ fresh, ∃ m ≤ n, Repeats R m i x := by
  induction n generalizing seen fresh with
  | zero => exact .inl hx
  | succ n ih =>
    have hnew : Places size (without (step fresh) seen) := (h.places hf).sublist without_sublist
    have new {k : Nat} (hk : k ∈ without (step fresh) seen) : ∃ i ∈ fresh, R i k :=
      (h.mem hf k).mp (without_sublist.subset hk)
    rw [upTo] at hx
    split at hx
    · exact .inl hx
    obtain hx | ⟨k, hk, m, hm, hx⟩ := ih (hnew.merge hs) hnew hx
    · obtain hx | hx := mem_merge.mp hx
      · obtain ⟨i, hi, hix⟩ := new hx
        exact .inr ⟨i, hi, 1, by omega, x, hix, rfl⟩
      · exact .inl hx
    · obtain ⟨i, hi, hik⟩ := new hk
      exact .inr ⟨i, hi, m + 1, by omega, k, hik, hx⟩

/-- The way out of places that were seen goes through places that are new. -/
theorem leaves_through {new : List Nat}
    (hseen : ∀ i ∈ seen, ∀ j, R i j → j ∈ seen ∨ j ∈ new) {m k x : Nat} (hk : k ∈ seen)
    (hx : Repeats R m k x) : x ∈ seen ∨ ∃ i ∈ new, ∃ m' < m, Repeats R m' i x := by
  induction m generalizing k with
  | zero =>
    cases hx
    exact .inl hk
  | succ m ih =>
    obtain ⟨j, hj, hx⟩ := hx
    obtain hj | hj := hseen k hk j hj
    · exact (ih hj hx).imp_right fun ⟨i, hi, m', hm, hx⟩ => ⟨i, hi, m', by omega, hx⟩
    · exact .inr ⟨j, hj, m, Nat.lt_succ_self m, hx⟩

/-- All that is near enough is found, and everything is near enough when there are as many rounds
as there are places left. -/
theorem upTo_complete (h : Follows size R step) (hs : Places size seen) (hf : Places size fresh)
    (hfresh : ∀ i ∈ fresh, i ∈ seen)
    (hseen : ∀ i ∈ seen, i ∉ fresh → ∀ j, R i j → j ∈ seen) {i m x : Nat} (hi : i ∈ fresh)
    (hx : Repeats R m i x) (hm : m ≤ n ∨ size + 1 < n + seen.length) :
    x ∈ upTo step n seen fresh := by
  induction n generalizing seen fresh i m with
  | zero =>
    have hl := hs.length_le
    obtain rfl : m = 0 := by omega
    cases hx
    exact hfresh _ hi
  | succ n ih =>
    have hnew : Places size (without (step fresh) seen) := (h.places hf).sublist without_sublist
    have mem_new (k : Nat) : k ∈ without (step fresh) seen ↔ k ∈ step fresh ∧ k ∉ seen :=
      mem_without (h.places hf).descending hs.descending
    -- One step leads to places that were seen or are new.
    have closed : ∀ i ∈ seen, ∀ j, R i j → j ∈ seen ∨ j ∈ without (step fresh) seen := by
      intro i hi j hj
      by_cases hjs : j ∈ seen
      · exact .inl hjs
      by_cases hif : i ∈ fresh
      · exact .inr ((mem_new j).mpr ⟨(h.mem hf j).mpr ⟨i, hif, hj⟩, hjs⟩)
      · exact absurd (hseen i hi hif j hj) hjs
    have hout := leaves_through closed (hfresh i hi) hx
    rw [upTo]
    split
    · rename_i hnil
      rw [hnil] at hout
      simpa using hout
    · rename_i hne
      obtain hx | ⟨k, hk, m', hm', hx⟩ := hout
      · exact seen_upTo (mem_merge.mpr (.inr hx))
      · refine ih (hnew.merge hs) hnew (fun i hi => mem_merge.mpr (.inl hi)) ?_ hk hx ?_
        · intro i hi hin j hj
          have his : i ∈ seen := (mem_merge.mp hi).resolve_left hin
          exact mem_merge.mpr (closed i his j hj).symm
        · have hlen := length_merge fun i (hi : i ∈ without (step fresh) seen) =>
            ((mem_new i).mp hi).2
          have hpos : 0 < (without (step fresh) seen).length := List.length_pos_of_mem hk
          omega

/-- A repetition in rounds, of which the least ones are taken one by one. -/
theorem repeated (h : Follows size R step) (least : Nat) (most : Option Nat) :
    Follows size
      (fun i j => ∃ extra, (∀ most' ∈ most, extra ≤ most' - least) ∧ Repeats R (least + extra) i j)
      (fun is => upTo step (match most with
        | some most => min (most - least) (size + 1)
        | none => size + 1) (Matcher.times step least is) (Matcher.times step least is)) := by
  have hfirst := h.times least
  constructor
  · intro is hi
    exact h.upTo_places (hfirst.places hi) (hfirst.places hi)
  intro is hi x
  have hp := hfirst.places hi
  constructor
  · intro hx
    have near : ∃ i ∈ Matcher.times step least is, ∃ extra,
        (∀ most' ∈ most, extra ≤ most' - least) ∧ Repeats R extra i x := by
      obtain hx | ⟨i, hif, extra, he, hx⟩ := h.upTo_sound hp hp hx
      · exact ⟨x, hx, 0, fun _ _ => Nat.zero_le _, rfl⟩
      · refine ⟨i, hif, extra, fun most' hm => ?_, hx⟩
        rw [hm] at he
        exact Nat.le_trans he (Nat.min_le_left _ _)
    obtain ⟨j, hj, extra, he, hx⟩ := near
    obtain ⟨i, his, hj⟩ := (hfirst.mem hi j).mp hj
    exact ⟨i, his, extra, he, Repeats.add_iff.mpr ⟨j, hj, hx⟩⟩
  · rintro ⟨i, his, extra, he, hx⟩
    obtain ⟨j, hj, hx⟩ := Repeats.add_iff.mp hx
    have hj := (hfirst.mem hi j).mpr ⟨i, his, hj⟩
    have hpos : 0 < (Matcher.times step least is).length := List.length_pos_of_mem hj
    refine h.upTo_complete hp hp (fun _ h => h) (fun i hi hn => absurd hi hn) hj hx ?_
    cases most with
    | none => exact .inr (by simp only; omega)
    | some most =>
      have := he most rfl
      simp only
      omega

end

end Follows

/-- The places that are reached are the ends of the parts that the matcher takes. -/
theorem follows_reach (text : Array Char) (p : Matcher) :
    Follows text.size (Spans text p) (p.reach text) := by
  induction p with
  | empty => exact ⟨fun h => h, fun _ j => by simp [Matcher.reach, Spans]⟩
  | one s =>
    constructor
    · intro is hi
      refine ⟨(hi.descending.filter _).map _ fun _ _ h => Nat.succ_lt_succ h, fun j hj => ?_⟩
      obtain ⟨i, hi, rfl⟩ := List.mem_map.mp hj
      obtain ⟨c, hc, -⟩ := (Option.any_eq_true _ _).mp (List.mem_filter.mp hi).2
      exact (Array.getElem?_eq_some_iff.mp hc).1
    · intro is hi j
      simp only [Matcher.reach, List.mem_map, List.mem_filter, Option.any_eq_true, Spans]
      constructor
      · rintro ⟨i, ⟨hi, hc⟩, rfl⟩
        exact ⟨i, hi, rfl, hc⟩
      · rintro ⟨i, hi, rfl, hc⟩
        exact ⟨i, ⟨hi, hc⟩, rfl⟩
  | look l =>
    refine ⟨fun hi => hi.sublist List.filter_sublist, fun hi j => ?_⟩
    simp only [Matcher.reach, List.mem_filter, Spans]
    constructor
    · rintro ⟨hj, hl⟩
      exact ⟨j, hj, rfl, hl⟩
    · rintro ⟨i, hi, rfl, hl⟩
      exact ⟨hi, hl⟩
  | seq p q hp hq =>
    refine ⟨fun hi => hq.places (hp.places hi), fun {is} hi j => ?_⟩
    rw [Matcher.reach, hq.mem (hp.places hi)]
    simp only [hp.mem hi, Spans]
    constructor
    · rintro ⟨k, ⟨i, hi, hk⟩, hj⟩
      exact ⟨i, hi, k, hk, hj⟩
    · rintro ⟨i, hi, k, hk, hj⟩
      exact ⟨k, ⟨i, hi, hk⟩, hj⟩
  | alt p q hp hq =>
    refine ⟨fun hi => (hp.places hi).merge (hq.places hi), fun hi j => ?_⟩
    rw [Matcher.reach, Matcher.mem_merge, hp.mem hi, hq.mem hi]
    simp only [Spans, and_or_left, exists_or]
  | repeated p least most hp => exact hp.repeated least most

/-- Both ends of a part are places of the text. -/
theorem Spans.le {text : Array Char} {p : Matcher} {i j : Nat} (h : Spans text p i j)
    (hi : i ≤ text.size) : j ≤ text.size := by
  have single : Places text.size [i] := ⟨List.pairwise_singleton _ _, by simpa using hi⟩
  have hj : j ∈ p.reach text [i] := ((follows_reach text p).mem single j).mpr ⟨i, by simp, h⟩
  exact ((follows_reach text p).places single).within j hj

end Policy.Pattern
