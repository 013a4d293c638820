import Policy.Proofs.Command.Batches
import Policy.Proofs.Evaluation.Unread
import Mathlib.Data.List.TakeWhile

namespace Policy

/-! ## Parameters of a request -/

theorem Request.get?_append (request more : Request) (key : String) :
    Request.get? (request ++ more) key = (request.get? key).or (more.get? key) := by
  rw [Request.get?, List.find?_append, Option.map_or]
  rfl

namespace Command

/-! ## Parameters -/

/-- The text gives a value to a name, which stands in front of the first equals sign. -/
structure Gives (text key value : String) : Prop where
  text : text.toList = key.toList ++ '=' :: value.toList
  first : '=' ∉ key.toList
  named : key ≠ ""

variable {text key value other : String} {texts : List String} {params : List (String × String)}

theorem readParam_of_gives (h : Gives text key value) : readParam? text = some (key, value) := by
  have hkey : ∀ c ∈ key.toList, decide (c ≠ '=') = true := by
    intro c hc
    exact decide_eq_true fun heq => h.first (heq ▸ hc)
  have hnamed : key.toList.isEmpty = false := by simpa using h.named
  simp only [readParam?, h.text, List.takeWhile_append_of_pos hkey,
    List.dropWhile_append_of_pos hkey]
  simp [h.named]

theorem gives_of_readParam (h : readParam? text = some (key, value)) : Gives text key value := by
  unfold readParam? at h
  dsimp only at h
  split at h
  · next c rest hdrop =>
    split at h
    · cases h
    · next hnamed =>
      cases h
      have hsplit := List.takeWhile_append_dropWhile (p := (· ≠ '=')) (l := text.toList)
      have hhead := List.head?_dropWhile_not (· ≠ '=') text.toList
      rw [hdrop] at hhead
      obtain rfl : c = '=' := by simpa using hhead
      refine ⟨?_, ?_, ?_⟩
      · rw [String.toList_ofList, String.toList_ofList, ← hdrop]
        exact hsplit.symm
      · rw [String.toList_ofList]
        intro hmem
        simpa using List.mem_takeWhile_imp hmem
      · intro hempty
        rw [← String.toList_inj, String.toList_ofList] at hempty
        exact hnamed (by rw [hempty]; rfl)
  · cases h

theorem readParam_eq_some_iff : readParam? text = some (key, value) ↔ Gives text key value :=
  ⟨gives_of_readParam, readParam_of_gives⟩

theorem readParams_eq_ok_iff : readParams texts = .ok params ↔
    List.Forall₂ (fun text param => Gives text param.1 param.2) texts params := by
  induction texts generalizing params with
  | nil =>
    rw [readParams, List.forall₂_nil_left_iff]
    exact ⟨fun h => (Except.ok.inj h).symm, fun h => congrArg Except.ok h.symm⟩
  | cons text texts ih =>
    rw [readParams, List.forall₂_cons_left_iff]
    constructor
    · intro h
      split at h
      · cases h
      · next param hparam =>
        obtain ⟨rest, hrest, h⟩ := bind_ok_iff.mp h
        cases h
        exact ⟨param, rest, gives_of_readParam hparam, ih.mp hrest, rfl⟩
    · rintro ⟨param, rest, hparam, hrest, rfl⟩
      simp only [readParam_of_gives hparam, ih.mpr hrest, ok_bind]
      rfl

theorem exists_gives (h : readParams texts = .ok params) :
    ∀ text ∈ texts, ∃ key value, Gives text key value := by
  have hall := readParams_eq_ok_iff.mp h
  clear h
  induction hall with
  | nil => exact List.forall_mem_nil _
  | cons hfirst _ ih => exact List.forall_mem_cons.mpr ⟨⟨_, _, hfirst⟩, ih⟩

/-- Parameters are rejected for one that gives no value. -/
theorem gives_none_of_readParams (h : readParams texts = .error text) :
    text ∈ texts ∧ ∀ key value, ¬ Gives text key value := by
  induction texts with
  | nil => cases h
  | cons first texts ih =>
    rw [readParams] at h
    split at h
    · next hnone =>
      cases h
      refine ⟨List.mem_cons_self, fun key value hgives => ?_⟩
      rw [readParam_of_gives hgives] at hnone
      cases hnone
    · cases hrest : readParams texts with
      | error other =>
        rw [hrest] at h
        cases h
        obtain ⟨hmem, hnone⟩ := ih hrest
        exact ⟨List.mem_cons_of_mem _ hmem, hnone⟩
      | ok params =>
        rw [hrest] at h
        cases h

/-- The last of the texts that gives a value to the name gives this one. -/
def LastGiven (texts : List String) (key value : String) : Prop :=
  ∃ before text after, texts = before ++ text :: after ∧ Gives text key value ∧
    ∀ later ∈ after, ∀ other, ¬ Gives later key other

theorem lastGiven_cons_iff : LastGiven (text :: texts) key value ↔ LastGiven texts key value ∨
    Gives text key value ∧ ∀ later ∈ texts, ∀ other, ¬ Gives later key other := by
  constructor
  · rintro ⟨before, last, after, hsplit, hgives, hnone⟩
    rcases List.cons_eq_append_iff.mp hsplit with ⟨rfl, hlast⟩ | ⟨more, rfl, rfl⟩
    · obtain ⟨rfl, rfl⟩ := List.cons.inj hlast
      exact .inr ⟨hgives, hnone⟩
    · exact .inl ⟨more, last, after, rfl, hgives, hnone⟩
  · rintro (⟨before, last, after, rfl, hgives, hnone⟩ | ⟨hgives, hnone⟩)
    · exact ⟨text :: before, last, after, rfl, hgives, hnone⟩
    · exact ⟨[], text, texts, rfl, hgives, hnone⟩

theorem not_lastGiven_iff :
    (∀ value, ¬ LastGiven texts key value) ↔ ∀ text ∈ texts, ∀ value, ¬ Gives text key value := by
  induction texts with
  | nil =>
    refine iff_of_true ?_ (fun text h => nomatch h)
    rintro value ⟨before, text, after, hsplit, -⟩
    exact List.append_ne_nil_of_right_ne_nil _ (List.cons_ne_nil _ _) hsplit.symm
  | cons text texts ih =>
    simp only [lastGiven_cons_iff, not_or, not_and, forall_and, ih, List.forall_mem_cons]
    constructor
    · rintro ⟨hrest, hfirst⟩
      exact ⟨fun value hgives => hfirst value hgives hrest, hrest⟩
    · rintro ⟨hfirst, hrest⟩
      exact ⟨hrest, fun value hgives => absurd hgives (hfirst value)⟩

/-- Of the parameters of a name, the last one counts. -/
theorem get?_reverse_eq_some_iff
    (h : List.Forall₂ (fun text param => Gives text param.1 param.2) texts params) :
    Request.get? params.reverse key = some value ↔ LastGiven texts key value := by
  induction h generalizing value with
  | nil =>
    refine iff_of_false (fun h => nomatch h) ?_
    exact not_lastGiven_iff.mpr (by simp) value
  | @cons text param texts params hfirst hrest ih =>
    have hnone : Request.get? params.reverse key = none ↔
        ∀ later ∈ texts, ∀ other, ¬ Gives later key other := by
      rw [← not_lastGiven_iff, Option.eq_none_iff_forall_ne_some]
      exact forall_congr' fun other => not_congr ih
    have honly : Request.get? [param] key = some value ↔ Gives text key value := by
      rw [← readParam_eq_some_iff, readParam_of_gives hfirst]
      simp [Request.get?, Prod.ext_iff]
    rw [List.reverse_cons, Request.get?_append, Option.or_eq_some_iff, ih, hnone, honly,
      lastGiven_cons_iff, and_comm (a := Gives text key value)]

/-! ## Documents with requests -/

/-- A request is an object whose values are strings, numbers or booleans. -/
def IsRequest (doc : Json) : Prop :=
  ∃ members, doc = .object members ∧ ∀ member ∈ members, (parameterText? member.2).isSome

/-- What a request document says for a name. -/
def textFor? (doc : Json) (key : String) : Option String :=
  match doc with
  | .object members => (Json.get? key members).bind parameterText?
  | _ => none

/-- A file holds one request, or a list of them. -/
inductive HoldsRequests : Json → Prop where
  | single {doc : Json} : IsRequest doc → HoldsRequests doc
  | batch {docs : List Json} : (∀ doc ∈ docs, IsRequest doc) → HoldsRequests (.array docs)

variable {path : Document.Path} {doc : Json} {docs : List Json} {request : Request}
  {requests : Requests}

theorem readRequest_cons_eq_ok_iff {member : String × Json} {members : List (String × Json)} :
    readRequest path (.object (member :: members)) = .ok request ↔
      ∃ text rest, parameterText? member.2 = some text ∧
        readRequest path (.object members) = .ok rest ∧ request = (member.1, text) :: rest := by
  simp only [readRequest, List.mapM_cons]
  constructor
  · intro h
    obtain ⟨param, hparam, h⟩ := bind_ok_iff.mp h
    obtain ⟨rest, hrest, h⟩ := bind_ok_iff.mp h
    unfold readParameter at hparam
    split at hparam
    · next text htext =>
      cases hparam
      cases h
      exact ⟨text, rest, htext, hrest, rfl⟩
    · cases hparam
  · rintro ⟨text, rest, htext, hrest, rfl⟩
    simp only [readParameter, htext, hrest, ok_bind]
    rfl

theorem object_of_readRequest (h : readRequest path doc = .ok request) :
    ∃ members, doc = .object members := by
  cases doc with
  | object members => exact ⟨members, rfl⟩
  | _ => cases h

theorem get?_of_readRequest (h : readRequest path doc = .ok request) (key : String) :
    request.get? key = textFor? doc key := by
  obtain ⟨members, rfl⟩ := object_of_readRequest h
  induction members generalizing request with
  | nil =>
    cases h
    rfl
  | cons member members ih =>
    obtain ⟨text, rest, htext, hrest, rfl⟩ := readRequest_cons_eq_ok_iff.mp h
    have hmore := ih hrest
    by_cases hname : member.1 = key
    · simp [Request.get?, textFor?, Json.get?, hname, htext]
    · simpa [Request.get?, textFor?, Json.get?, hname] using hmore

theorem isRequest_iff (path : Document.Path) :
    IsRequest doc ↔ ∃ request, readRequest path doc = .ok request := by
  constructor
  · rintro ⟨members, rfl, hall⟩
    induction members with
    | nil => exact ⟨[], rfl⟩
    | cons member members ih =>
      obtain ⟨hfirst, hrest⟩ := List.forall_mem_cons.mp hall
      obtain ⟨text, htext⟩ := Option.isSome_iff_exists.mp hfirst
      obtain ⟨rest, hrest⟩ := ih hrest
      exact ⟨_, readRequest_cons_eq_ok_iff.mpr ⟨text, rest, htext, hrest, rfl⟩⟩
  · rintro ⟨request, h⟩
    obtain ⟨members, rfl⟩ := object_of_readRequest h
    refine ⟨members, rfl, ?_⟩
    induction members generalizing request with
    | nil => exact List.forall_mem_nil _
    | cons member members ih =>
      obtain ⟨text, rest, htext, hrest, rfl⟩ := readRequest_cons_eq_ok_iff.mp h
      exact List.forall_mem_cons.mpr ⟨Option.isSome_of_mem htext, ih rest hrest⟩

theorem isRequest_of_readBatch {batch : List Request} {index : Nat}
    (h : readBatch index docs = .ok batch) : ∀ doc ∈ docs, IsRequest doc := by
  induction docs generalizing index batch with
  | nil => exact List.forall_mem_nil _
  | cons doc docs ih =>
    obtain ⟨request, hrequest, h⟩ := bind_ok_iff.mp h
    obtain ⟨rest, hrest, -⟩ := bind_ok_iff.mp h
    exact List.forall_mem_cons.mpr ⟨(isRequest_iff _).mpr ⟨request, hrequest⟩, ih hrest⟩

/-- The requests that a document holds, in one shape with it. -/
inductive Requests.Of (related : Json → Request → Prop) : Json → Requests → Prop where
  | single {members : List (String × Json)} {request : Request} :
      related (.object members) request → Of related (.object members) (.single request)
  | batch {docs : List Json} {requests : List Request} :
      List.Forall₂ related docs requests → Of related (.array docs) (.batch requests)

/-- The requests of a document are read exactly if it holds some. -/
theorem exists_ofJson (h : HoldsRequests doc) : ∃ requests, Requests.ofJson doc = .ok requests ∧
    Requests.Of (fun doc request => readRequest .start doc = .ok request) doc requests := by
  cases h with
  | single h =>
    obtain ⟨request, hrequest⟩ := (isRequest_iff .start).mp h
    obtain ⟨members, rfl⟩ := object_of_readRequest hrequest
    exact ⟨.single request, ofJson_request hrequest, .single hrequest⟩
  | @batch docs h =>
    have hall : ∃ requests,
        List.Forall₂ (fun doc request => readRequest .start doc = .ok request) docs requests := by
      induction docs with
      | nil => exact ⟨[], .nil⟩
      | cons doc docs ih =>
        obtain ⟨hfirst, hrest⟩ := List.forall_mem_cons.mp h
        obtain ⟨request, hrequest⟩ := (isRequest_iff .start).mp hfirst
        obtain ⟨requests, hrequests⟩ := ih hrest
        exact ⟨request :: requests, .cons hrequest hrequests⟩
    obtain ⟨requests, hrequests⟩ := hall
    exact ⟨.batch requests, ofJson_array hrequests, .batch hrequests⟩

theorem holdsRequests_of_ofJson (h : Requests.ofJson doc = .ok requests) : HoldsRequests doc := by
  unfold Requests.ofJson at h
  split at h
  · next docs =>
    cases hbatch : readBatch 0 docs with
    | error problem =>
      rw [hbatch] at h
      cases h
    | ok batch => exact .batch (isRequest_of_readBatch hbatch)
  · cases hsingle : readRequest .start doc with
    | error problem =>
      rw [hsingle] at h
      cases h
    | ok request => exact .single ((isRequest_iff .start).mpr ⟨request, hsingle⟩)

/-! ## Requests with parameters over their own -/

/-- The request has the values of the last parameters, and those of the file where none is given. -/
structure Merged (texts : List String) (doc : Json) (request : Request) : Prop where
  given : ∀ key value, LastGiven texts key value → request.get? key = some value
  kept : ∀ key, (∀ value, ¬ LastGiven texts key value) → request.get? key = textFor? doc key

theorem merged_overlay (hparams : readParams texts = .ok params)
    (h : readRequest path doc = .ok request) : Merged texts doc (overlay params request) := by
  have hlast (key value : String) :
      Request.get? params.reverse key = some value ↔ LastGiven texts key value :=
    get?_reverse_eq_some_iff (readParams_eq_ok_iff.mp hparams)
  refine ⟨fun key value hgiven => ?_, fun key hnone => ?_⟩
  · rw [overlay, Request.get?_append, (hlast key value).mpr hgiven, Option.some_or]
  · have hfree : Request.get? params.reverse key = none := by
      rw [Option.eq_none_iff_forall_ne_some]
      exact fun value hvalue => hnone value ((hlast key value).mp hvalue)
    rw [overlay, Request.get?_append, hfree, Option.none_or, get?_of_readRequest h]

theorem Merged.get?_eq {other : Request} (h : Merged texts doc request)
    (h' : Merged texts doc other) (key : String) : request.get? key = other.get? key := by
  by_cases hgiven : ∃ value, LastGiven texts key value
  · obtain ⟨value, hvalue⟩ := hgiven
    rw [h.given key value hvalue, h'.given key value hvalue]
  · rw [not_exists] at hgiven
    rw [h.kept key hgiven, h'.kept key hgiven]

/-- Only the values of names count for what the rules come to. -/
theorem decidedOver_congr [Wording] {far : Option Http.Network} {userAgent : String} {set : RuleSet Slot}
    {other : Request} (h : ∀ key, request.get? key = other.get? key) :
    decidedOver far userAgent set request = decidedOver far userAgent set other := by
  have hdecisions {σ : Type} (service : Service σ) :
      (Evaluation.mk set request service Evaluation.defaultDepth).decisions =
        (Evaluation.mk set other service Evaluation.defaultDepth).decisions := by
    let e : Evaluation σ := ⟨set, other, service, Evaluation.defaultDepth⟩
    have hrules :
        e.rules set.rules = ({ e with request := request } : Evaluation σ).rules set.rules :=
      Evaluation.paired_requests.rules set.rules fun _ _ key _ => h key
    exact hrules.symm
  cases far with
  | none => simp only [decidedOver, hdecisions]
  | some far => simp only [decidedOver, hdecisions]

end Command

end Policy
