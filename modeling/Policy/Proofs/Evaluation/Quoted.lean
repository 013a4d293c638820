import Policy.Proofs.Evaluation.Confined

namespace Policy

/-! ## Texts in messages -/

def Misfit.quoted : Misfit → List String
  | notNumeric text => [text]
  | noOrder left right => [left, right]
  | truthAsNumber => []
  | other message => [message]

def CallError.words : CallError → List String
  | transport message => [message]
  | status _ | disabled => []

namespace Fault

/-- The texts of policies, requests and answers that the message of a fault shows as they are. -/
def given : Fault → List String
  | missingParameter key => [key]
  | misfit why => why.quoted
  | badPattern pattern => [pattern]
  | call url _ | cancelled url => [url]
  | cycle name | tooDeep name _ => [name]
  | overflow _ _ _ | divisionByZero | unknownSlot _ => []

/-- The words of libraries that the message of a fault ends in. -/
def words [Wording] : Fault → List String
  | badPattern pattern => [Wording.pattern pattern]
  | call _ error => error.words
  | _ => []

/-- All texts that the message of a fault shows as they are. -/
def quoted [Wording] (fault : Fault) : List String := fault.given ++ fault.words

/-- Whether the fault is one of an attribute that could not be looked into. -/
def ofReference : Fault → Bool
  | cycle _ | tooDeep _ _ | unknownSlot _ => true
  | _ => false

/-- The fault is not one of references, and its message shows plain texts next to the words of
libraries. -/
structure Ordinary (plain : String → Prop) (fault : Fault) : Prop where
  own : fault.ofReference = false
  given : ∀ text ∈ fault.given, plain text

end Fault

/-- The texts that stand in a rule set: names of attributes and texts of terms. -/
def RuleSet.texts {α : Type} (set : RuleSet α) : List String :=
  set.attributes.flatMap (fun a => a.name :: a.value.texts) ++
    (Rule.memberTerms set.rules).flatMap (·.texts)

theorem RuleSet.mem_texts_of_attribute {α : Type} {set : RuleSet α} {k : Nat} {a : Attribute α}
    {text : String} (ha : set.attributes[k]? = some a) (h : text ∈ a.name :: a.value.texts) :
    text ∈ set.texts :=
  List.mem_append_left _ (List.mem_flatMap.mpr ⟨a, List.mem_of_getElem? ha, h⟩)

/-- The texts that evaluation writes by itself are plain. -/
structure WrittenPlain (plain : String → Prop) : Prop where
  number : ∀ n : Number, plain n.text
  truth : ∀ b : Bool, plain (Value.truthText b)
  typeName : ∀ v : Value, plain v.typeName

/-! ## Operations on values -/

namespace Value

variable {plain : String → Prop}

theorem meets_toNumber {v : Value} (hv : plain v.render) :
    Meets (fun _ => True) (Fault.Ordinary plain) v.toNumber := by
  cases v with
  | number n => trivial
  | truth b => exact ⟨rfl, by simp [Fault.given, Misfit.quoted]⟩
  | string text =>
    rw [toNumber, numeric]
    cases Number.read? text with
    | some n => trivial
    | none => exact ⟨rfl, List.forall_mem_singleton.mpr hv⟩

theorem meets_numeric {text : String} (h : plain text) :
    Meets (fun _ => True) (Fault.Ordinary plain) (numeric text) :=
  meets_toNumber (v := string text) h

theorem meets_calculate (op : Operator) (a b : Number) :
    Meets (fun _ => True) (Fault.Ordinary plain) (calculate op a b) := by
  rw [calculate]
  split
  · exact ⟨rfl, by simp [Fault.given]⟩
  · split
    · trivial
    · exact ⟨rfl, by simp [Fault.given]⟩

variable (w : WrittenPlain plain)

include w

theorem meets_coerce {v : Value} (kind : Kind) (hv : plain v.render) :
    Meets (fun c => plain c.render) (Fault.Ordinary plain) (v.coerce kind) := by
  cases kind with
  | string => cases v with | _ => exact hv
  | number =>
    cases v with
    | number n => exact hv
    | string text | truth b => exact (meets_toNumber hv).bind fun n _ => w.number n

theorem meets_matched {subject pattern : Value} (hp : plain pattern.render) :
    Meets (fun c => plain c.render) (Fault.Ordinary plain) (matched subject pattern) := by
  rw [matched]
  split
  · exact w.truth _
  · exact ⟨rfl, List.forall_mem_singleton.mpr hp⟩

theorem meets_apply (op : Operator) {a b : Value} (ha : plain a.render) (hb : plain b.render) :
    Meets (fun c => plain c.render) (Fault.Ordinary plain) (apply op a b) := by
  have harithmetic : Meets (fun c => plain c.render) (Fault.Ordinary plain) (do
      let m ← a.toNumber
      let n ← b.toNumber
      let k ← calculate op m n
      pure (number k)) := by
    refine (meets_toNumber ha).bind fun m _ => ?_
    refine (meets_toNumber hb).bind fun n _ => ?_
    exact (meets_calculate op m n).bind fun k _ => w.number k
  cases op with
  | regex => exact meets_matched w hb
  | plus | minus | times | divide => exact harithmetic

theorem meets_greater {a b : Value} (ha : plain a.render) (hb : plain b.render) :
    Meets (fun _ => True) (Fault.Ordinary plain) (a.greater b) := by
  have hno (c d : Value) :
      Fault.Ordinary plain (.misfit (.noOrder c.typeName d.typeName)) :=
    ⟨rfl, List.forall_mem_cons.mpr ⟨w.typeName c, List.forall_mem_singleton.mpr (w.typeName d)⟩⟩
  cases a with
  | number m =>
    cases b with
    | number n => trivial
    | string text => exact (meets_numeric hb).bind fun _ _ => trivial
    | truth b => exact hno _ _
  | string text =>
    cases b with
    | number n => exact (meets_numeric ha).bind fun _ _ => trivial
    | string other =>
      rw [greater]
      split
      · trivial
      · trivial
    | truth b => exact hno _ _
  | truth a => exact hno _ _

end Value

/-! ## Evaluation on plain texts -/

namespace Evaluation

variable {σ : Type} {e : Evaluation σ} {plain : String → Prop}

theorem exists_of_get {request : Request} {key text : String} (h : request.get? key = some text) :
    ∃ p ∈ request, p.2 = text := by
  obtain ⟨p, hp, rfl⟩ := Option.map_eq_some_iff.mp h
  exact ⟨p, List.mem_of_find?_eq_some hp, rfl⟩

/-- The texts that come from outside of the policy are plain. -/
structure GivenPlain (e : Evaluation σ) (plain : String → Prop) : Prop where
  request : ∀ p ∈ e.request, plain p.2
  answer : ∀ call s body, (e.service.answer call s).1 = .ok body → plain body

theorem GivenPlain.meets_call (h : e.GivenPlain plain) {url : String} (hurl : plain url)
    (method : Method) (params : List (String × Value)) :
    Ensures (fun v => plain v.render) (Fault.Ordinary plain) (e.call url method params) := by
  intro s
  have hanswer : Meets plain (Fault.Ordinary plain)
      ((e.service.request ⟨url, method, params⟩).run s).1 := by
    rw [Service.run_request]
    split
    · exact ⟨rfl, List.forall_mem_singleton.mpr hurl⟩
    · have hplain := h.answer ⟨url, method, params⟩ s.state
      revert hplain
      cases (e.service.answer ⟨url, method, params⟩ s.state).1 with
      | ok body => exact fun hplain => hplain body rfl
      | error error => exact fun _ => ⟨rfl, List.forall_mem_singleton.mpr hurl⟩
  revert hanswer
  simp only [call, run_bind]
  cases ((e.service.request ⟨url, method, params⟩).run s).1 with
  | ok body => exact id
  | error fault => exact id

/-- On plain texts no step but that of looking into an attribute fails with a fault of references,
and all steps come to plain texts. -/
theorem GivenPlain.confines (h : e.GivenPlain plain) (w : WrittenPlain plain)
    {allowed : Fault → Prop} (hown : ∀ fault, Fault.Ordinary plain fault → allowed fault) :
    e.Confines plain (fun v => plain v.render) allowed where
  string _ htext := htext
  number n := w.number n
  lookup key hkey := by
    rw [lookup]
    split
    · next text htext =>
      obtain ⟨p, hp, rfl⟩ := exists_of_get htext
      exact h.request p hp
    · exact hown _ ⟨rfl, List.forall_mem_singleton.mpr hkey⟩
  coerce v kind hv := (Value.meets_coerce w kind hv).imp (fun _ hc => hc) hown
  apply op a b ha hb := (Value.meets_apply w op ha hb).imp (fun _ hc => hc) hown
  greater a b ha hb := (Value.meets_greater w ha hb).imp (fun _ hc => hc) hown
  call url method params hurl _ := (h.meets_call hurl method params).imp (fun _ hc => hc) hown

/-- The faults of an evaluation on plain texts are given plain texts. -/
theorem GivenPlain.confines_given (h : e.GivenPlain plain) (w : WrittenPlain plain) :
    e.Confines plain (fun v => plain v.render) (fun fault => ∀ text ∈ fault.given, plain text) :=
  h.confines w fun _ hf => hf.given

/-- By induction on the room that is left to look into attributes. -/
theorem GivenPlain.attrAt (h : e.GivenPlain plain) (w : WrittenPlain plain)
    (hset : ∀ text ∈ e.set.texts, plain text) (room : Nat) (chain : List Slot) (slot : Slot) :
    Ensures (fun v => plain v.render) (fun fault => ∀ text ∈ fault.given, plain text)
      (e.attrAt room chain slot) := by
  induction room using Nat.strongRecOn generalizing chain slot with
  | ind room ih =>
    have hname (a : Attribute Slot) (ha : e.set.attributes[slot]? = some a) : plain a.name :=
      hset _ (RuleSet.mem_texts_of_attribute ha List.mem_cons_self)
    apply ensures_attrAt
    · exact fun _ _ htext => nomatch htext
    · exact fun a ha _ => List.forall_mem_singleton.mpr (hname a ha)
    · exact fun a ha _ => List.forall_mem_singleton.mpr (hname a ha)
    · rintro a less ha rfl
      have htexts : ∀ text ∈ a.value.texts, plain text := fun text htext =>
        hset _ (RuleSet.mem_texts_of_attribute ha (List.mem_cons_of_mem _ htext))
      have hderef := ih less (Nat.lt_succ_self less) (slot :: chain)
      exact (h.confines_given w).termWith_of_forall a.value htexts hderef

/-- Next to the words of libraries, the rules of a policy quote nothing in their faults but texts of
the policy, values of the request and answers of the service: if those are plain, so is all of it. -/
theorem GivenPlain.decisions (h : e.GivenPlain plain) (w : WrittenPlain plain)
    (hset : ∀ text ∈ e.set.texts, plain text) (s : Session σ) (fault : Fault)
    (hfault : .failed fault ∈ (e.decisions.run s).1) : ∀ text ∈ fault.given, plain text := by
  have hterms : ∀ t ∈ Rule.memberTerms e.set.rules, Ensures (fun v => plain v.render)
      (fun fault => ∀ text ∈ fault.given, plain text) (e.term t) := by
    intro t ht
    have htexts : ∀ text ∈ t.texts, plain text := fun text htext =>
      hset _ (List.mem_append_right _ (List.mem_flatMap.mpr ⟨t, ht, htext⟩))
    exact (h.confines_given w).termWith_of_forall t htexts (h.attrAt w hset e.depthLimit [])
  exact (h.confines_given w).rules e.set.rules hterms s _ hfault

end Evaluation

end Policy
