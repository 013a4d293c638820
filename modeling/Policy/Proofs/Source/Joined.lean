import Policy.Proofs.Source.Definitions
import Policy.Proofs.Source.Lines
import Policy.Proofs.Source.Local.Rule
import Policy.Proofs.Source.Local.Taken
import Mathlib.Data.List.Forall2
import Mathlib.Data.List.Basic
import Mathlib.Data.List.Chain

namespace Policy.Source

variable {α : Type}

/-! ## Texts of single definitions -/

/-- The name, the sign and the value of an attribute. -/
theorem exists_front_attribute {limit : Option Nat} {located rest : List Located}
    {a : Attribute String} (h : readAttribute limit located = .ok (a, rest)) :
    ∃ front, located.map (·.token) = front ++ rest.map (·.token) ∧ Defines front ∧
      Front (fun _ => readAttribute limit) front (peek rest) a := by
  obtain ⟨⟨name, behind⟩, hname, h⟩ := bind_ok_iff.mp h
  obtain ⟨opened, hopened, h⟩ := bind_ok_iff.mp h
  obtain ⟨⟨value, last⟩, hvalue, h⟩ := bind_ok_iff.mp h
  cases h
  obtain ⟨p, rfl⟩ := exists_of_expectMark hopened
  obtain ⟨front, hfront, hf⟩ := local_readTerm _ _ _ _ _ hvalue
  unfold readName at hname
  split at hname
  · cases hname
    refine ⟨.name name :: .mark .eq :: front, ?_, ⟨name, front, rfl, hf.nonempty⟩,
      List.cons_ne_nil _ _, by simp [hf.solid], ?_⟩
    · rw [List.map_cons, List.map_cons, hfront]
      rfl
    · intro room more _ hmore located hl
      obtain ⟨p, middle, rfl, hmiddle⟩ := exists_of_map_cons hl
      obtain ⟨behind, hbehind, heq⟩ := expectMark_of_map "'='" hmiddle
      have hlast : Follows front _ more := hmore.last [.name name, .mark .eq]
      have hread := hf.reads front.length more (Nat.le_refl _) hlast
      obtain ⟨rest, hr, hx⟩ := hread behind hbehind
      refine ⟨rest, hr, ?_⟩
      simp only [readAttribute, readName, ok_bind, heq, hx]
      rfl
  · cases hname
  · cases hname

/-- A text that is read to its end has been scanned, and all its tokens were taken. -/
theorem of_readWhole_ok {reader : Reader α} {text : String} {x : α}
    (h : readWhole reader text = .ok x) :
    ∃ located rest, scan text = .ok located ∧ reader located = .ok (x, rest) ∧
      ∀ front, .eof ∉ front → located.map (·.token) = front ++ rest.map (·.token) →
        peek rest = .eof ∧ front = tokensOf text := by
  obtain ⟨located, hscan, h⟩ := bind_ok_iff.mp h
  obtain ⟨⟨y, rest⟩, hread, h⟩ := bind_ok_iff.mp h
  dsimp only at h
  split at h
  · next hend =>
    cases h
    refine ⟨located, rest, hscan, hread, fun front hsolid hfront => ⟨hend, ?_⟩⟩
    obtain ⟨hmap, hall⟩ := map_of_scan hscan
    rw [hmap] at hfront
    cases rest with
    | nil =>
      rw [List.map_nil, List.append_nil] at hfront
      rw [← hfront] at hsolid
      simp at hsolid
    | cons t rest =>
      have ht : t.token = .eof := hend
      rw [List.map_cons, ht] at hfront
      exact ((List.append_cons_inj_of_notMem hall List.not_mem_nil).mp hfront).1.symm
  · cases h

/-- A reader that looks no further reads the text again in front of others. -/
theorem Local.front_of_readWhole {reader : Reader α} {again : Nat → Reader α}
    (hlocal : Local reader again) {text : String} {x : α} (h : readWhole reader text = .ok x) :
    (∃ located, scan text = .ok located) ∧ Front again (tokensOf text) .eof x := by
  obtain ⟨located, rest, hscan, hread, hall⟩ := of_readWhole_ok h
  obtain ⟨front, hfront, hf⟩ := hlocal _ _ _ hread
  obtain ⟨hend, rfl⟩ := hall front hf.solid hfront
  rw [hend] at hf
  exact ⟨⟨located, hscan⟩, hf⟩

theorem attribute_of_text {text : String} {a : Attribute String} (h : attributeOf text = .ok a) :
    (∃ located, scan text = .ok located) ∧ Defines (tokensOf text) ∧
      Front (fun _ => readAttribute nestingLimit) (tokensOf text) .eof a := by
  obtain ⟨located, rest, hscan, hread, hall⟩ := of_readWhole_ok h
  obtain ⟨front, hfront, hdefines, hf⟩ := exists_front_attribute hread
  obtain ⟨hend, rfl⟩ := hall front hf.solid hfront
  rw [hend] at hf
  exact ⟨⟨located, hscan⟩, hdefines, hf⟩

theorem rule_of_text {text : String} {r : Rule String} (h : ruleOf text = .ok r) :
    (∃ located, scan text = .ok located) ∧
      (∃ k, next (tokensOf text) = .keyword k ∧ (Token.keyword k).closes = true) ∧
      Front (fun _ => readRule nestingLimit 0) (tokensOf text) .eof r := by
  obtain ⟨located, rest, hscan, hread, hall⟩ := of_readWhole_ok h
  obtain ⟨front, hfront, hf⟩ := local_readRule _ _ _ _ _ hread
  obtain ⟨k, -, hcloses, hnext⟩ :=
    (worded_readRuleAt nestingLimit _ 0).next hread hfront hf.nonempty
  obtain ⟨hend, rfl⟩ := hall front hf.solid hfront
  rw [hend] at hf
  exact ⟨⟨located, hscan⟩, ⟨k, hnext, hcloses⟩, hf⟩

/-! ## Texts of several definitions -/

/-- The first text ends with a call without parameters, and the second one starts like a parameter
for it. -/
def Absorbs (text other : String) : Prop :=
  endsInCall (tokensOf text) = true ∧ startsParameter (tokensOf other) = true

instance (text other : String) : Decidable (Absorbs text other) :=
  inferInstanceAs (Decidable (_ ∧ _))

theorem follows_word {more : List Token} {k : Keyword} (hmore : next more = .keyword k)
    (hcloses : (Token.keyword k).closes = true) (front : List Token) :
    Follows front .eof more where
  token := .inr ⟨rfl, hmore ▸ hcloses⟩
  call _ := startsParameter_of_separates (by rw [hmore]; rfl)
  comma h := by
    rw [hmore] at h
    cases h

theorem follows_end (front : List Token) : Follows front .eof [.eof] where
  token := .inl rfl
  call _ := rfl
  comma h := by cases h

/-- A call in front of another attribute stops, unless the attribute starts like a parameter. -/
theorem follows_attribute {front ts : List Token} (h : Defines ts)
    (hapart : ¬ (endsInCall front = true ∧ startsParameter ts = true)) (more : List Token) :
    Follows front .eof (ts ++ more) := by
  obtain ⟨name, value, rfl, hvalue⟩ := h
  obtain ⟨t, value, rfl⟩ := List.exists_cons_of_ne_nil hvalue
  refine ⟨.inr ⟨rfl, rfl⟩, fun hcall => ?_, Token.noConfusion⟩
  cases t with
  | name text => exact absurd ⟨hcall, rfl⟩ hapart
  | _ => rfl

theorem readsEach_rules_of_texts {texts : List String} {rs : List (Rule String)}
    (h : List.Forall₂ (fun text r => ruleOf text = .ok r) texts rs) :
    ReadsEach (readRule nestingLimit 0) [.eof] (texts.map tokensOf) rs := by
  induction h with
  | nil => exact .nil
  | @cons text r texts rs hr hrs ih =>
    obtain ⟨-, -, hf⟩ := rule_of_text hr
    refine .cons (hf.reads _ _ (Nat.le_refl _) ?_) ih
    cases hrs with
    | nil => exact follows_end _
    | cons hnext _ =>
      obtain ⟨-, ⟨k, hk, hcloses⟩, -⟩ := rule_of_text hnext
      rw [List.map_cons, List.flatten_cons, List.append_assoc]
      exact follows_word (next_append hk _) hcloses _

theorem readsEach_attributes_of_texts {texts : List String} {as : List (Attribute String)}
    (h : List.Forall₂ (fun text a => attributeOf text = .ok a) texts as)
    (hapart : texts.IsChain fun text other => ¬ Absorbs text other) {more : List Token}
    {k : Keyword} (hmore : next more = .keyword k) (hcloses : (Token.keyword k).closes = true) :
    ReadsEach (readAttribute nestingLimit) more (texts.map tokensOf) as := by
  induction h with
  | nil => exact .nil
  | @cons text a texts as ha has ih =>
    obtain ⟨-, -, hf⟩ := attribute_of_text ha
    refine .cons (hf.reads _ _ (Nat.le_refl _) ?_) (ih hapart.tail)
    cases has with
    | nil => exact follows_word hmore hcloses _
    | cons hnext _ =>
      obtain ⟨-, hdefines, -⟩ := attribute_of_text hnext
      have hpair := List.rel_of_isChain_cons_cons hapart
      rw [List.map_cons, List.flatten_cons, List.append_assoc]
      exact follows_attribute hdefines hpair _

/-! ## Calls take what they can -/

theorem exists_of_startsAttribute {located : List Located} (h : startsAttribute located = true) :
    ∃ name more, located.map (·.token) = .name name :: more := by
  unfold startsAttribute at h
  split at h
  · exact ⟨_, _, rfl⟩
  · cases h

theorem exists_of_readAttributes {limit : Option Nat} {room : Nat} {located rest : List Located}
    {a : Attribute String} {as : List (Attribute String)}
    (h : readAttributes limit room located = .ok (a :: as, rest)) :
    startsAttribute located = true ∧ ∃ less middle,
      readAttribute limit located = .ok (a, middle) ∧
        readAttributes limit less middle = .ok (as, rest) := by
  cases room with
  | zero => cases h
  | succ less =>
    simp only [readAttributes] at h
    split at h
    · next hstarts =>
      obtain ⟨⟨first, middle⟩, hfirst, h⟩ := bind_ok_iff.mp h
      obtain ⟨⟨others, last⟩, hothers, h⟩ := bind_ok_iff.mp h
      cases h
      exact ⟨hstarts, less, middle, hfirst, hothers⟩
    · cases h

theorem names_of_attribute {text : String} {a : Attribute String} (h : attributeOf text = .ok a) :
    (tokensOf text).countP Token.isName = a.value.nameCount + 1 := by
  obtain ⟨located, rest, -, hread, hall⟩ := of_readWhole_ok h
  obtain ⟨front, hfront, -, hf⟩ := exists_front_attribute hread
  obtain ⟨other, hother, ho⟩ := takes_readAttribute _ _ _ _ hread
  obtain ⟨-, rfl⟩ := hall front hf.solid hfront
  rw [List.append_cancel_right (hfront.symm.trans hother)]
  exact ho.names

/-- An attribute that comes to the same as before in front of another one was read from the same
tokens, so that no call at their end can have left a parameter behind. -/
theorem isChain_of_readAttributes {texts : List String} {as : List (Attribute String)}
    (has : List.Forall₂ (fun text a => attributeOf text = .ok a) texts as) {room : Nat}
    {located rest : List Located} {more : List Token}
    (hl : located.map (·.token) = (texts.map tokensOf).flatten ++ more)
    (h : readAttributes nestingLimit room located = .ok (as, rest)) :
    texts.IsChain fun text other => ¬ Absorbs text other := by
  induction has generalizing room located with
  | nil => exact .nil
  | @cons text a texts as ha has ih =>
    cases has with
    | nil => exact .singleton _
    | @cons other b texts as hb _ =>
      obtain ⟨-, less, middle, hfirst, hrest⟩ := exists_of_readAttributes h
      obtain ⟨hstarts, -⟩ := exists_of_readAttributes hrest
      obtain ⟨name, behind, hmiddle⟩ := exists_of_startsAttribute hstarts
      obtain ⟨front, hfront, hf⟩ := takes_readAttribute _ _ _ _ hfirst
      obtain ⟨-, ⟨name', value, hother, -⟩, -⟩ := attribute_of_text hb
      rw [List.map_cons, List.flatten_cons, List.append_assoc] at hl
      have hsame : front = tokensOf text := by
        have hnames := hf.names.trans (names_of_attribute ha).symm
        rw [hfront, hmiddle, List.map_cons, List.flatten_cons, hother] at hl
        exact front_eq_of_countP hl rfl rfl hnames
      rw [hfront, hsame] at hl
      have hbehind := List.append_cancel_left hl
      refine .cons_cons ?_ (ih hbehind hrest)
      rintro ⟨hcall, hparameter⟩
      have hnone := hf.call (hsame ▸ hcall)
      rw [hbehind, List.map_cons, List.flatten_cons, List.append_assoc,
        startsParameter_append hparameter] at hnone
      cases hnone

section Texts

variable {attributes rules : List String} {as : List (Attribute String)} {rs : List (Rule String)}

theorem defines_of_texts
    (has : List.Forall₂ (fun text a => attributeOf text = .ok a) attributes as) :
    ∀ ts ∈ attributes.map tokensOf, Defines ts := by
  induction has with
  | nil => exact fun ts hts => absurd hts List.not_mem_nil
  | cons ha _ ih => exact List.forall_mem_cons.mpr ⟨(attribute_of_text ha).2.1, ih⟩

theorem words_of_texts (hrs : List.Forall₂ (fun text r => ruleOf text = .ok r) rules rs) :
    ∀ ts ∈ rules.map tokensOf, ∃ k, next ts = .keyword k := by
  induction hrs with
  | nil => exact fun ts hts => absurd hts List.not_mem_nil
  | cons hr _ ih =>
    obtain ⟨-, ⟨k, hk, -⟩, -⟩ := rule_of_text hr
    exact List.forall_mem_cons.mpr ⟨⟨k, hk⟩, ih⟩

/-- No definition starts with a number. -/
theorem lines_of_definitions
    (has : List.Forall₂ (fun text a => attributeOf text = .ok a) attributes as)
    (hrs : List.Forall₂ (fun text r => ruleOf text = .ok r) rules rs) (afterTerm : Bool) :
    Lines afterTerm (attributes ++ rules) := by
  induction has generalizing afterTerm with
  | nil =>
    induction hrs generalizing afterTerm with
    | nil => trivial
    | cons hr _ ih =>
      obtain ⟨hscan, ⟨k, hk, -⟩, -⟩ := rule_of_text hr
      refine ⟨hscan, fun _ n hint => ?_, ih _⟩
      rw [hk] at hint
      cases hint
  | cons ha _ ih =>
    obtain ⟨hscan, ⟨name, value, hts, -⟩, -⟩ := attribute_of_text ha
    refine ⟨hscan, fun _ n hint => ?_, ih _⟩
    rw [hts] at hint
    cases hint

theorem ruleSetOf_of_apart
    (has : List.Forall₂ (fun text a => attributeOf text = .ok a) attributes as)
    (hrs : List.Forall₂ (fun text r => ruleOf text = .ok r) rules rs) (hne : rules ≠ [])
    (hapart : attributes.IsChain fun text other => ¬ Absorbs text other) :
    ruleSetOf ("\n".intercalate (attributes ++ rules)) = .ok ⟨as, rs⟩ := by
  have hwords := words_of_texts hrs
  have hrules := readsEach_rules_of_texts hrs
  have hlines := lines_of_definitions has hrs false
  obtain ⟨located, hscan, hl⟩ := scan_lines (List.append_ne_nil_of_right_ne_nil _ hne) hlines
  cases hrs with
  | nil => exact absurd rfl hne
  | @cons rule r rules rs hr _ =>
    obtain ⟨-, ⟨k, hk, hcloses⟩, -⟩ := rule_of_text hr
    have hmore : next (((rule :: rules).map tokensOf).flatten ++ [.eof]) = .keyword k := by
      rw [List.map_cons, List.flatten_cons, List.append_assoc]
      exact next_append hk _
    have hattributes := readsEach_attributes_of_texts has hapart hmore hcloses
    have hread := reads_definitions hattributes hrules (defines_of_texts has) hwords
      (List.cons_ne_nil r rs)
    rw [List.flatMap_append, List.append_assoc, List.flatMap_def, List.flatMap_def] at hl
    exact readWhole_of_reads hscan hl hread

theorem apart_of_ruleSetOf
    (has : List.Forall₂ (fun text a => attributeOf text = .ok a) attributes as)
    (hrs : List.Forall₂ (fun text r => ruleOf text = .ok r) rules rs) (hne : rules ≠ [])
    (h : ruleSetOf ("\n".intercalate (attributes ++ rules)) = .ok ⟨as, rs⟩) :
    attributes.IsChain fun text other => ¬ Absorbs text other := by
  have hlines := lines_of_definitions has hrs false
  obtain ⟨located, hscan, hl⟩ := scan_lines (List.append_ne_nil_of_right_ne_nil _ hne) hlines
  obtain ⟨located', rest, hscan', hread, -⟩ := of_readWhole_ok h
  cases hscan.symm.trans hscan'
  obtain ⟨⟨found, middle⟩, hattributes, hread⟩ := bind_ok_iff.mp hread
  obtain ⟨⟨others, last⟩, -, hread⟩ := bind_ok_iff.mp hread
  dsimp only at hread
  split at hread
  · cases hread
  · cases hread
    rw [List.flatMap_append, List.append_assoc, List.flatMap_def] at hl
    exact isChain_of_readAttributes has hl hattributes

/-- The lines of a policy are its definitions, one after the other, unless a call at the end of an
attribute is followed by an attribute that starts like a parameter: it is taken for one. -/
theorem ruleSetOf_lines
    (has : List.Forall₂ (fun text a => attributeOf text = .ok a) attributes as)
    (hrs : List.Forall₂ (fun text r => ruleOf text = .ok r) rules rs) (hne : rules ≠ []) :
    ruleSetOf ("\n".intercalate (attributes ++ rules)) = .ok ⟨as, rs⟩ ↔
      attributes.IsChain fun text other => ¬ Absorbs text other :=
  ⟨apart_of_ruleSetOf has hrs hne, ruleSetOf_of_apart has hrs hne⟩

end Texts

/-- A comment ends with its line, a call in front of a sum stays without parameters, and the sum
starts with the sign of its first number. -/
theorem ruleSetOf_lines_commented :
    (["x = GET \"http://u\" // asks", "y = -1 + x"].IsChain fun text other =>
      ¬ Absorbs text other) ∧
    ruleSetOf ("\n".intercalate (["x = GET \"http://u\" // asks", "y = -1 + x"] ++
      ["permit when x > y", "always deny"])) =
        .ok ⟨[⟨"x", .rest "http://u" .get []⟩,
            ⟨"y", .binary .plus (.number ⟨-1, by decide⟩) (.attr "x")⟩],
          [.when (.greater (.attr "x") (.attr "y")) .permit, .always .deny]⟩ := by
  have hx : attributeOf "x = GET \"http://u\" // asks" = .ok ⟨"x", .rest "http://u" .get []⟩ := by
    decide +kernel
  have hy : attributeOf "y = -1 + x" =
      .ok ⟨"y", .binary .plus (.number ⟨-1, by decide⟩) (.attr "x")⟩ := by
    decide +kernel
  have hp : ruleOf "permit when x > y" = .ok (.when (.greater (.attr "x") (.attr "y")) .permit) := by
    decide +kernel
  have hd : ruleOf "always deny" = .ok (.always .deny) := by decide +kernel
  have hapart : ["x = GET \"http://u\" // asks", "y = -1 + x"].IsChain fun text other =>
      ¬ Absorbs text other := by
    decide +kernel
  have hlines := ruleSetOf_lines (.cons hx (.cons hy .nil)) (.cons hp (.cons hd .nil))
    (List.cons_ne_nil _ _)
  exact ⟨hapart, hlines.mpr hapart⟩

/-- A call takes the definition on the next line for its parameter. -/
theorem call_absorbs_definition :
    attributeOf "x = GET \"http://u\"" = .ok ⟨"x", .rest "http://u" .get []⟩ ∧
      attributeOf "y = z" = .ok ⟨"y", .attr "z"⟩ ∧
      ruleOf "always permit" = .ok (.always .permit) ∧
      ruleSetOf ("\n".intercalate (["x = GET \"http://u\"", "y = z"] ++ ["always permit"])) =
        .ok ⟨[⟨"x", .rest "http://u" .get [("y", "z")]⟩], [.always .permit]⟩ := by
  decide +kernel

end Policy.Source
