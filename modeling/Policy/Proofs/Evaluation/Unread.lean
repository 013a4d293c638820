import Policy.Proofs.Evaluation.Paired
import Policy.Proofs.Evaluation.References
import Policy.Service.Script

namespace Policy

/-! ## Keys that a policy asks for -/

namespace RuleSet

/-- The term reads the key of the request, by itself or in an attribute that it leads to. -/
def AsksFor (set : RuleSet Slot) (t : Term Slot) (key : String) : Prop :=
  key ∈ t.keys ∨
    ∃ slot a, set.LeadsTo t slot ∧ set.attributes[slot]? = some a ∧ key ∈ a.value.keys

variable {set : RuleSet Slot} {t : Term Slot} {slot : Slot} {a : Attribute Slot} {key : String}

/-- What an attribute asks for, every term that refers to it asks for. -/
theorem AsksFor.of_ref (hslot : slot ∈ t.refs) (ha : set.attributes[slot]? = some a)
    (h : set.AsksFor a.value key) : set.AsksFor t key := by
  rcases h with hown | ⟨last, b, ⟨first, hfirst, hpath⟩, hb, hkey⟩
  · have hleads : set.LeadsTo t slot := ⟨slot, hslot, .refl⟩
    exact .inr ⟨slot, a, hleads, ha, hown⟩
  · have hstep : set.Refers slot first := ⟨a, ha, hfirst⟩
    have hleads : set.LeadsTo t last := ⟨slot, hslot, .head hstep hpath⟩
    exact .inr ⟨last, b, hleads, hb, hkey⟩

end RuleSet

/-! ## Runs on two requests -/

/-- Equal computations are related as two evaluations side by side have to be. -/
theorem sequential_eq (σ : Type) : Sequential fun {α} (x y : StateM (Session σ) α) => x = y where
  pure _ := rfl
  bind := by
    rintro α β x _ next next' rfl hn
    have hnext : next = next' := funext hn
    rw [hnext]

namespace Evaluation

variable {σ : Type} {e : Evaluation σ} {other : Request}

theorem lookup_congr {key : String} (h : other.get? key = e.request.get? key) :
    ({ e with request := other } : Evaluation σ).lookup key = e.lookup key := by
  rw [lookup, lookup]
  dsimp only
  rw [h]

/-- Requests are the same as far as the terms of one of them ask for them. -/
theorem paired_requests :
    Paired (fun {α} (x y : Run σ α) => x = y) e { e with request := other }
      (fun t => ∀ key, e.set.AsksFor t key → other.get? key = e.request.get? key) where
  sequential := sequential_eq σ
  attributes := rfl
  limit := rfl
  lookup t ht key hkey := lookup_congr (ht key (.inl hkey))
  call _ _ _ _ _ := rfl
  next t ht slot hslot a ha := by
    intro key hkey
    have hasks : e.set.AsksFor t key := hkey.of_ref hslot ha
    exact ht key hasks

/-- A rule depends on the request only for the keys that it asks for. Wherever it starts, it comes to
the same decision with the same explanation, or fails with the same fault, and leaves the same calls
behind, on every request that agrees on those keys. -/
theorem rule_ignores_unread_keys (e : Evaluation σ) (other : Request) (r : Rule Slot)
    (h : ∀ t ∈ r.terms, ∀ key, e.set.AsksFor t key → other.get? key = e.request.get? key)
    (s : Session σ) :
    (({ e with request := other } : Evaluation σ).rule r).run s = (e.rule r).run s := by
  have hrule : e.rule r = ({ e with request := other } : Evaluation σ).rule r :=
    paired_requests.rule r h
  rw [hrule]

/-- A ring of attributes: a role is looked up with the name of a user, and each of two ranks needs
the other one. -/
def ring : RuleSet Slot where
  attributes :=
    [⟨"role", .rest "http://roles" .get [("user", 1)]⟩, ⟨"user", .request "user"⟩,
      ⟨"rank", .binary .plus (.attr 3) (.request "bonus")⟩, ⟨"peer", .attr 2⟩]
  rules := [.branch (.equal (.attr 0) (.string "root")) (.always .permit)
    (.when (.greater (.attr 2) (.number ⟨3, by decide⟩)) .deny)]

def ringFor (request : Request) : Evaluation Service.Script.History where
  set := ring
  request := request
  service := Service.Script.service ⟨[("http://roles", [.ok "root"])], none⟩
  depthLimit := defaultDepth

/-- The user and the bonus are all that the rule of the ring asks for. -/
theorem mem_of_asksFor_ring {t : Term Slot} (ht : t ∈ Rule.memberTerms ring.rules) {key : String}
    (h : ring.AsksFor t key) : key = "user" ∨ key = "bonus" := by
  have hattributes : ∀ a ∈ ring.attributes, ∀ key ∈ a.value.keys, key = "user" ∨ key = "bonus" := by
    decide
  have hterms : ∀ t ∈ Rule.memberTerms ring.rules, t.keys = [] := by decide
  rcases h with hown | ⟨slot, a, -, ha, hkey⟩
  · rw [hterms t ht] at hown
    cases hown
  · exact hattributes a (List.mem_of_getElem? ha) key hkey

theorem ring_ignores_colour :
    (∀ t ∈ Rule.memberTerms ring.rules, ∀ key, ring.AsksFor t key →
      Request.get? [("colour", "red"), ("user", "eve")] key = Request.get? [("user", "eve")] key) ∧
    ∀ r ∈ ring.rules,
      ((ringFor [("colour", "red"), ("user", "eve")]).rule r).run ⟨[], []⟩ =
        ((ringFor [("user", "eve")]).rule r).run ⟨[], []⟩ := by
  have hagree : ∀ t ∈ Rule.memberTerms ring.rules, ∀ key, ring.AsksFor t key →
      Request.get? [("colour", "red"), ("user", "eve")] key =
        Request.get? [("user", "eve")] key := by
    intro t ht key hkey
    rcases mem_of_asksFor_ring ht hkey with rfl | rfl
    · decide
    · decide
  refine ⟨hagree, fun r hr => ?_⟩
  apply rule_ignores_unread_keys (ringFor [("user", "eve")])
  intro t ht
  apply hagree
  rw [List.mem_singleton.mp hr] at ht
  exact List.mem_append_left _ ht

end Evaluation

end Policy
