import Policy.Compile
import Policy.Proofs.Source.Definitions
import Policy.Proofs.Source.Printed.Rule
import Policy.Proofs.Source.Spelling

namespace Policy.Source

theorem defines_tokens (a : Attribute String) : Defines a.tokens :=
  ⟨a.name, parens a.value.tokens, rfl, List.cons_ne_nil _ _⟩

/-- Nothing in front of a list of printed rules goes on with the first of them. -/
theorem joins_next_rules {rs : List (Rule String)} (hw : ∀ r ∈ rs, r.WellFormed) :
    (next ((rs.map Rule.tokens).flatten ++ [.eof])).joins = false := by
  cases rs with
  | nil => rfl
  | cons r rs =>
    rw [List.map_cons, List.flatten_cons, List.append_assoc]
    exact joins_next_rule (hw r List.mem_cons_self) _

theorem reads_attribute {a : Attribute String} {most : Nat} (hw : a.WellFormed)
    (hdepth : a.value.nesting + 1 ≤ most) {more : List Token}
    (hmore : (next more).joins = false) :
    Reads (readAttribute (some most)) (a.tokens ++ more) more a := by
  intro located hl
  obtain ⟨p, front, rfl, hfront⟩ := exists_of_map_cons hl
  obtain ⟨middle, hmiddle, heq⟩ := expectMark_of_map "'='" hfront
  have hvalue : Reads (readTerm (some most) 0) (parens a.value.tokens ++ more) more a.value :=
    readTerm_parens hw.2 (by omega) hmore
  obtain ⟨rest, hr, hx⟩ := hvalue middle hmiddle
  refine ⟨rest, hr, ?_⟩
  simp only [readAttribute, readName, ok_bind, heq, hx]
  rfl

theorem readsEach_attributes {as : List (Attribute String)} {most : Nat}
    (hw : ∀ a ∈ as, a.WellFormed) (hdepth : ∀ a ∈ as, a.value.nesting + 1 ≤ most)
    {more : List Token} (hmore : (next more).joins = false) :
    ReadsEach (readAttribute (some most)) more (as.map Attribute.tokens) as := by
  induction as with
  | nil => exact .nil
  | cons a as ih =>
    obtain ⟨hwa, hws⟩ := List.forall_mem_cons.mp hw
    obtain ⟨hda, hds⟩ := List.forall_mem_cons.mp hdepth
    have hnext : (next ((as.map Attribute.tokens).flatten ++ more)).joins = false := by
      cases as with
      | nil => exact hmore
      | cons a as => rfl
    exact .cons (reads_attribute hwa hda hnext) (ih hws hds)

theorem readsEach_rules {rs : List (Rule String)} {most : Nat} (hw : ∀ r ∈ rs, r.WellFormed)
    (hdepth : ∀ r ∈ rs, r.nesting ≤ most) :
    ReadsEach (readRule (some most) 0) [.eof] (rs.map Rule.tokens) rs := by
  induction rs with
  | nil => exact .nil
  | cons r rs ih =>
    obtain ⟨hwr, hws⟩ := List.forall_mem_cons.mp hw
    obtain ⟨hdr, hds⟩ := List.forall_mem_cons.mp hdepth
    exact .cons (readRule_tokens hwr hdr (joins_next_rules hws)) (ih hws hds)

theorem reads_ruleSet {set : RuleSet String} {most : Nat} (hw : set.WellFormed)
    (hdepth : set.NestsWithin most) :
    Reads (readRuleSet (some most)) (set.tokens ++ [.eof]) [.eof] set := by
  have hattributes : ReadsEach (readAttribute (some most)) _ _ set.attributes :=
    readsEach_attributes hw.attributes hdepth.attributes (joins_next_rules hw.rules)
  have hrules : ReadsEach (readRule (some most) 0) _ _ set.rules :=
    readsEach_rules hw.rules hdepth.rules
  have hdefines : ∀ ts ∈ set.attributes.map Attribute.tokens, Defines ts :=
    List.forall_mem_map.mpr fun a _ => defines_tokens a
  have hword : ∀ ts ∈ set.rules.map Rule.tokens, ∃ k, next ts = .keyword k := by
    refine List.forall_mem_map.mpr fun r hr => ?_
    obtain ⟨k, hk, -⟩ := next_rule (hw.rules r hr) []
    rw [List.append_nil] at hk
    exact ⟨k, hk⟩
  have hread := reads_definitions hattributes hrules hdefines hword hw.nonempty
  rw [RuleSet.tokens, List.append_assoc, List.flatMap_def, List.flatMap_def]
  exact hread

/-- A printed policy is read as the rule set that was printed, whatever the limit is. -/
theorem readWhole_print {set : RuleSet String} {most : Nat} (hw : set.WellFormed)
    (hdepth : set.NestsWithin most) :
    readWhole (readRuleSet (some most)) (print set) = .ok set := by
  obtain ⟨located, hscan, hl⟩ := scan_print hw
  exact readWhole_of_reads hscan hl (reads_ruleSet hw hdepth)

theorem compile_print {set : RuleSet String} {linked : RuleSet Slot} (file : String)
    (hw : set.WellFormed) (hdepth : set.NestsWithin 128) (hlink : set.link = .ok linked) :
    compile file (print set) = .ok linked := by
  have hread : ruleSetOf (print set) = .ok set := readWhole_print hw hdepth
  simp only [compile, hread, hlink]

/-- Reading is a left inverse of printing on all that a policy text can express. -/
theorem ruleSetOf_print (set : RuleSet String) (hw : set.WellFormed)
    (hdepth : set.NestsWithin 128) : ruleSetOf (print set) = .ok set :=
  readWhole_print hw hdepth

/-- A policy with the smallest number, a quote in a string and a branch in a leg of a branch. -/
def nestedBranches : RuleSet String where
  attributes :=
    [⟨"floor", .number ⟨-9223372036854775808, by decide⟩⟩,
      ⟨"level", .binary .minus (.coerce (.request "lev\"el") .number) (.number ⟨-5, by decide⟩)⟩]
  rules :=
    [.branch (.not (.greater (.attr "floor") (.attr "level")))
      (.branch (.equal (.rest "http://role" .post [("at", "level"), ("min", "floor")])
        (.string "root")) (.always .permit) .never)
      (.all .deny [.when (.equal (.attr "level") (.attr "floor")) .deny, .never])]

theorem ruleSetOf_print_nestedBranches :
    nestedBranches.WellFormed ∧ nestedBranches.NestsWithin 128 ∧
      ruleSetOf (print nestedBranches) = .ok nestedBranches := by
  have hw : nestedBranches.WellFormed := by decide
  have hdepth : nestedBranches.NestsWithin 128 := by decide
  exact ⟨hw, hdepth, ruleSetOf_print nestedBranches hw hdepth⟩

end Policy.Source
