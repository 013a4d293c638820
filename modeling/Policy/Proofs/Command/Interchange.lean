import Policy.Command.Run
import Policy.Proofs.Compiled
import Policy.Proofs.Document.Conforming
import Policy.Proofs.Document.Printed
import Policy.Proofs.Source.Printed.RuleSet

namespace Policy.Command

open Document

variable {disk : Disk} {network : Http.Network} {source document : String} {set : RuleSet Slot}

/-! ## Loading printed documents -/

/-- The text that compiling prints for a rule set. -/
def printed (set : RuleSet Slot) : String := (writeRuleSet set.byName).pretty ++ "\n"

theorem loadSource_eq_ok (h : loadSource disk source = .ok set) :
    ∃ text, disk source = .ok text ∧ compile source text = .ok set := by
  unfold loadSource at h
  split at h
  · cases h
  · next text htext =>
    split at h
    · cases h
    · next hcompile =>
      cases h
      exact ⟨text, htext, hcompile⟩

theorem loadDocument_printed (hset : loadSource disk source = .ok set)
    (hdisk : disk document = .ok (printed set)) :
    loadDocument disk document =
      if (writeRuleSet set.byName).levels ≤ Json.levelLimit then .ok set
      else .error (.document document .notJson) := by
  obtain ⟨text, -, hcompile⟩ := loadSource_eq_ok hset
  have hnorm := RuleSet.norm_eq (wellFormed_byName_of_compile hcompile)
  have hread : Document.read (printed set) =
      if (writeRuleSet set.byName).levels ≤ Json.levelLimit then .ok set.byName
      else .error .notJson := by
    rw [printed, read_printed, hnorm]
  by_cases hlevels : (writeRuleSet set.byName).levels ≤ Json.levelLimit
  · rw [if_pos hlevels] at hread ⊢
    simp only [loadDocument, loadText, hdisk, ok_bind, hread, link_byName_of_compile hcompile]
  · rw [if_neg hlevels] at hread ⊢
    simp only [loadDocument, loadText, hdisk, ok_bind, hread]

theorem loadJson_printed (hdisk : disk document = .ok (printed set)) :
    loadJson disk document =
      if (writeRuleSet set.byName).levels ≤ Json.levelLimit then .ok (writeRuleSet set.byName)
      else .error (.notJson document) := by
  have hread := Json.read_pretty (plain_writeRuleSet set.byName)
  by_cases hlevels : (writeRuleSet set.byName).levels ≤ Json.levelLimit
  · rw [if_pos hlevels] at hread ⊢
    simp only [loadJson, loadText, hdisk, ok_bind, printed, hread]
  · rw [if_neg hlevels] at hread ⊢
    simp only [loadJson, loadText, hdisk, ok_bind, printed, hread]

/-- Nothing is held against the document of a policy text. -/
theorem objections_writeRuleSet (hset : loadSource disk source = .ok set) :
    objections (writeRuleSet set.byName) = [] := by
  obtain ⟨text, -, hcompile⟩ := loadSource_eq_ok hset
  have hw := wellFormed_byName_of_compile hcompile
  have hread : readRuleSet (writeRuleSet set.byName) = .ok set.byName := by
    rw [readRuleSet_writeRuleSet, RuleSet.norm_eq hw]
  simp only [objections, Schema.check_writeRuleSet hw, hread, link_byName_of_compile hcompile]

/-! ## Runs of command lines -/

section Runs

variable [Wording]

namespace Invocation

theorem run_of_perform_ok {i : Invocation} {settings : Settings} {outcome : Outcome}
    (hsettings : loadSettings disk i.config = .ok settings)
    (h : ∀ settings, i.perform disk network settings = .ok outcome) :
    i.run disk network = outcome := by
  simp only [run, hsettings, ok_bind, h]

theorem run_of_perform_error {i : Invocation} {settings : Settings} {failure : Failure}
    (hsettings : loadSettings disk i.config = .ok settings)
    (h : ∀ settings, i.perform disk network settings = .error failure) :
    i.run disk network = i.refused failure := by
  simp only [run, hsettings, ok_bind, h]

/-- Two tasks are carried out with related outcomes, or neither of them is, for the same reason. -/
inductive Alike (related : Outcome → Outcome → Prop) :
    Except Failure Outcome → Except Failure Outcome → Prop where
  | failed (failure : Failure) : Alike related (.error failure) (.error failure)
  | done {outcome outcome' : Outcome} :
      related outcome outcome' → Alike related (.ok outcome) (.ok outcome')

theorem run_alike {i j : Invocation} (related : Outcome → Outcome → Prop)
    (hconfig : j.config = i.config) (hlevel : j.logLevel = i.logLevel)
    (hrefused : ∀ failure, related (i.refused failure) (j.refused failure))
    (hperform : ∀ loaded settings, loadSettings disk i.config = .ok loaded →
      Alike related (i.perform disk network settings) (j.perform disk network settings)) :
    related (i.run disk network) (j.run disk network) := by
  unfold run
  rw [hconfig, hlevel]
  cases hsettings : loadSettings disk i.config with
  | error failure => exact hrefused failure
  | ok settings =>
    have halike := hperform settings
      { settings with logLevel := i.logLevel.getD settings.logLevel } hsettings
    rw [ok_bind, ok_bind]
    generalize i.perform disk network _ = performed at halike ⊢
    generalize j.perform disk network _ = performed' at halike ⊢
    cases halike with
    | failed failure => exact hrefused failure
    | done h => exact h

/-- One task is carried out alike in two ways where its last step is. -/
theorem perform_alike {i j : Invocation} {related : Outcome → Outcome → Prop} {settings : Settings}
    (htask : j.task = i.task)
    (hcompiled : ∀ file set, i.task = .compile file → related (compiled set) (compiled set))
    (hevaluate : ∀ policy request params offline failOnError far set requests,
      i.task = .eval policy request params offline failOnError →
        related (i.evaluate far settings.userAgent failOnError set requests)
          (j.evaluate far settings.userAgent failOnError set requests))
    (hvalidated : ∀ file doc, i.task = .validate file → loadJson disk file = .ok doc →
      related (i.validated doc) (j.validated doc)) :
    Alike related (i.perform disk network settings) (j.perform disk network settings) := by
  unfold perform
  rw [htask]
  cases htask : i.task with
  | compile file =>
    dsimp only
    cases loadSource disk file with
    | error failure => exact .failed failure
    | ok set => exact .done (hcompiled file set htask)
  | eval policy request params offline failOnError =>
    dsimp only
    cases loadPolicy disk policy with
    | error failure => exact .failed failure
    | ok set =>
      rw [ok_bind, ok_bind]
      cases loadRequests disk request params with
      | error failure => exact .failed failure
      | ok requests =>
        exact .done (hevaluate policy request params offline failOnError _ set requests htask)
  | validate file =>
    dsimp only
    cases hdoc : loadJson disk file with
    | error failure => exact .failed failure
    | ok doc => exact .done (hvalidated file doc htask hdoc)

/-- Compiling succeeds only on a policy text that is loaded, and prints its document. -/
theorem printed_of_run {i : Invocation} (htask : i.task = .compile source)
    (h : (i.run disk network).status = 0) :
    ∃ set, loadSource disk source = .ok set ∧ (i.run disk network).stdout = printed set := by
  cases hsettings : loadSettings disk i.config with
  | error failure =>
    have hrun : i.run disk network = i.refused failure := by
      simp only [run, hsettings, error_bind]
    rw [hrun] at h
    cases h
  | ok settings =>
    cases hset : loadSource disk source with
    | error failure =>
      have hrun : i.run disk network = i.refused failure := by
        apply run_of_perform_error hsettings
        intro settings
        simp only [perform, htask, hset, error_bind]
      rw [hrun] at h
      cases h
    | ok set =>
      have hrun : i.run disk network = compiled set := by
        apply run_of_perform_ok hsettings
        intro settings
        simp only [perform, htask, hset, ok_bind]
        rfl
      rw [hrun]
      exact ⟨set, rfl, rfl⟩

/-- The command line with a task to evaluate the policy of a path. -/
def evaluating (i : Invocation) (policy request : String) (params : List String)
    (offline failOnError : Bool) : Invocation :=
  { i with task := .eval policy request params offline failOnError }

theorem run_evaluating_congr {i : Invocation} {request : String} {params : List String}
    {offline failOnError : Bool} (h : loadPolicy disk document = loadPolicy disk source) :
    (i.evaluating document request params offline failOnError).run disk network =
      (i.evaluating source request params offline failOnError).run disk network := by
  simp only [run, evaluating, perform, h]
  rfl

theorem run_evaluating_of_error {i : Invocation} {settings : Settings} {policy request : String}
    {params : List String} {offline failOnError : Bool} {failure : Failure}
    (hsettings : loadSettings disk i.config = .ok settings)
    (h : loadPolicy disk policy = .error failure) :
    (i.evaluating policy request params offline failOnError).run disk network =
      i.refused failure := by
  apply run_of_perform_error (i := i.evaluating policy request params offline failOnError) hsettings
  intro settings
  simp only [evaluating, perform, h, error_bind]

theorem run_validating {i : Invocation} {settings : Settings} {doc : Json}
    (htask : i.task = .validate document) (hsettings : loadSettings disk i.config = .ok settings)
    (hdoc : loadJson disk document = .ok doc) : i.run disk network = i.validated doc := by
  apply run_of_perform_ok hsettings
  intro settings
  simp only [perform, htask, hdoc, ok_bind]
  rfl

theorem run_validating_of_error {i : Invocation} {settings : Settings} {failure : Failure}
    (htask : i.task = .validate document) (hsettings : loadSettings disk i.config = .ok settings)
    (hdoc : loadJson disk document = .error failure) :
    i.run disk network = i.refused failure := by
  apply run_of_perform_error hsettings
  intro settings
  simp only [perform, htask, hdoc, error_bind]

end Invocation

/-! ## Documents in place of policy texts -/

/-- A document does for all commands what the policy text does that it was printed for. -/
structure Interchangeable (disk : Disk) (source document : String) (set : RuleSet Slot) :
    Prop where
  loads : loadDocument disk document = .ok set
  valid : ∀ (network : Http.Network) (i : Invocation) (settings : Settings),
    i.task = .validate document → loadSettings disk i.config = .ok settings →
      i.run disk network = ⟨0, if i.quiet then "" else Report.valid i.format, "", []⟩
  evaluates : namesDocument document → ¬ namesDocument source →
    ∀ (network : Http.Network) (i : Invocation) (request : String) (params : List String)
      (offline failOnError : Bool),
      (i.evaluating document request params offline failOnError).run disk network =
        (i.evaluating source request params offline failOnError).run disk network

/-- A document is refused by all commands because its text is not read. -/
structure Unreadable (disk : Disk) (document : String) : Prop where
  loads : loadDocument disk document = .error (.document document .notJson)
  invalid : ∀ (network : Http.Network) (i : Invocation) (settings : Settings),
    i.task = .validate document → loadSettings disk i.config = .ok settings →
      i.run disk network = i.refused (.notJson document)
  refused : namesDocument document →
    ∀ (network : Http.Network) (i : Invocation) (settings : Settings) (request : String)
      (params : List String) (offline failOnError : Bool),
      loadSettings disk i.config = .ok settings →
      (i.evaluating document request params offline failOnError).run disk network =
        i.refused (.document document .notJson)

/-- What compiling prints stands in for the policy text as long as its arrays and objects nest
within the limit of reading, and is not read at all beyond. -/
theorem interchangeable_within_levels (disk : Disk) (network : Http.Network) (i : Invocation)
    (source document : String) (htask : i.task = .compile source)
    (hstatus : (i.run disk network).status = 0)
    (hdisk : disk document = .ok (i.run disk network).stdout) :
    ∃ set, loadSource disk source = .ok set ∧
      ((writeRuleSet set.byName).levels ≤ Json.levelLimit →
        Interchangeable disk source document set) ∧
      (Json.levelLimit < (writeRuleSet set.byName).levels → Unreadable disk document) := by
  obtain ⟨set, hset, hstdout⟩ := Invocation.printed_of_run htask hstatus
  rw [hstdout] at hdisk
  have hdocument := loadDocument_printed hset hdisk
  have hjson := loadJson_printed hdisk
  have hpolicy (hname : namesDocument document) :
      loadPolicy disk document = loadDocument disk document := by
    rw [loadPolicy, if_pos hname]
  refine ⟨set, hset, ?_, ?_⟩
  · intro hlevels
    rw [if_pos hlevels] at hdocument hjson
    refine ⟨hdocument, ?_, ?_⟩
    · intro network i settings htask hsettings
      rw [Invocation.run_validating htask hsettings hjson, Invocation.validated,
        objections_writeRuleSet hset]
    · intro hname hsource network i request params offline failOnError
      apply Invocation.run_evaluating_congr
      rw [hpolicy hname, hdocument, loadPolicy, if_neg hsource, hset]
  · intro hlevels
    rw [if_neg (Nat.not_le.mpr hlevels)] at hdocument hjson
    refine ⟨hdocument, ?_, ?_⟩
    · intro network i settings htask hsettings
      exact Invocation.run_validating_of_error htask hsettings hjson
    · intro hname network i settings request params offline failOnError hsettings
      apply Invocation.run_evaluating_of_error hsettings
      rw [hpolicy hname, hdocument]

end Runs

/-! ## Towers of groups

Each group of a policy text opens one level for the reader of policies, but an object and an array
in its document. -/

/-- Groups with one member each, so many around a rule that always permits. -/
def tower {α : Type} : Nat → Rule α
  | 0 => .always .permit
  | n + 1 => .all .permit [tower n]

/-- The policy whose only rule is a tower. -/
def towerAlone {α : Type} (n : Nat) : RuleSet α := ⟨[], [tower n]⟩

theorem wellFormed_tower (n : Nat) : (tower n).WellFormed := by
  induction n with
  | zero => exact Decision.noConfusion
  | succ n ih => exact ⟨Decision.noConfusion, List.cons_ne_nil _ _, ih, trivial⟩

theorem nesting_tower (n : Nat) : (tower n).nesting = n := by
  induction n with
  | zero => rfl
  | succ n ih => rw [tower, Rule.nesting, Rule.memberNesting, ih, Rule.memberNesting, Nat.max_zero]

theorem mapRefs_tower {ε α β : Type} (f : α → Except ε β) (n : Nat) :
    (tower n).mapRefs f = .ok (tower n) := by
  induction n with
  | zero => rfl
  | succ n ih =>
    simp only [tower, Rule.mapRefs, Rule.mapMembers, ih, ok_bind]
    rfl

theorem levels_tower (n : Nat) : (writeRule (tower n)).levels = 2 * n + 1 := by
  induction n with
  | zero => rfl
  | succ n ih =>
    simp only [tower, writeRule, writeRules, writeDecision, node, Json.levels, Json.memberLevels,
      Json.itemLevels, ih]
    omega

theorem levels_towerAlone (n : Nat) : (writeRuleSet (towerAlone n)).levels = 2 * n + 3 := by
  simp only [towerAlone, writeRuleSet, writeRules, List.map_nil, Json.levels, Json.memberLevels,
    Json.itemLevels, levels_tower]
  omega

theorem link_towerAlone (n : Nat) : (towerAlone n).link = .ok (towerAlone n) := by
  have hrule := mapRefs_tower ((towerAlone n).find (.rule 1)) n
  simp only [towerAlone] at hrule
  simp only [RuleSet.link, towerAlone, RuleSet.linkAttributes, RuleSet.linkRules]
  rw [hrule]
  rfl

theorem compile_towerAlone (file : String) {n : Nat} (h : n ≤ 128) :
    compile file (Source.print (towerAlone n)) = .ok (towerAlone n) := by
  apply Source.compile_print file _ _ (link_towerAlone n)
  · exact ⟨by simp [towerAlone], by simp [towerAlone, wellFormed_tower], List.cons_ne_nil _ _⟩
  · exact ⟨by simp [towerAlone], by simp [towerAlone, nesting_tower, h]⟩

/-- A disk that holds the text of a policy and the document of the policy. -/
def sideBySide (set : RuleSet String) : Disk
  | "p.policy" => .ok (Source.print set)
  | "p.json" => .ok ((writeRuleSet set).pretty ++ "\n")
  | _ => .error .notFound

theorem loadSource_towerAlone {n : Nat} (h : n ≤ 128) :
    loadSource (sideBySide (towerAlone n)) "p.policy" = .ok (towerAlone n) := by
  have hdisk : sideBySide (towerAlone n) "p.policy" = .ok (Source.print (towerAlone n)) := rfl
  simp only [loadSource, hdisk, compile_towerAlone "p.policy" h]

theorem printed_towerAlone (n : Nat) :
    printed (towerAlone n) = (writeRuleSet (towerAlone n)).pretty ++ "\n" := by
  rw [printed, RuleSet.byName_of_link (link_towerAlone n)]

/-- Compiles the policy text of the disk. -/
def compiling : Invocation := ⟨.text, false, none, none, .compile "p.policy"⟩

def validating : Invocation := ⟨.text, false, none, none, .validate "p.json"⟩

theorem run_compiling [Wording] {n : Nat} (h : n ≤ 128) (network : Http.Network) :
    compiling.run (sideBySide (towerAlone n)) network =
      ⟨0, (writeRuleSet (towerAlone n)).pretty ++ "\n", "", []⟩ := by
  have hsettings : loadSettings (sideBySide (towerAlone n)) compiling.config = .ok .default := rfl
  have hcompiled : compiling.run (sideBySide (towerAlone n)) network =
      Invocation.compiled (towerAlone n) := by
    apply Invocation.run_of_perform_ok hsettings
    intro settings
    simp only [Invocation.perform, compiling, loadSource_towerAlone h, ok_bind]
    rfl
  rw [hcompiled, Invocation.compiled, ← printed, printed_towerAlone]

/-- The highest tower whose document is read. -/
theorem interchangeable_tower_sixtyTwo :
    Interchangeable (sideBySide (towerAlone 62)) "p.policy" "p.json" (towerAlone 62) := by
  have hrun := run_compiling (n := 62) (by decide) fun _ => none
  obtain ⟨set, hset, hwithin, -⟩ :=
    interchangeable_within_levels (sideBySide (towerAlone 62)) (fun _ => none) compiling
      "p.policy" "p.json" rfl (by rw [hrun]) (by rw [hrun]; rfl)
  rw [loadSource_towerAlone (by decide)] at hset
  cases hset
  apply hwithin
  rw [RuleSet.byName_of_link (link_towerAlone 62), levels_towerAlone]
  decide

/-- One group more, and what compiling prints is no document. -/
theorem unreadable_tower_sixtyThree :
    run (sideBySide (towerAlone 63)) (fun _ => none) ["compile", "p.policy"] =
        ⟨0, (writeRuleSet (towerAlone 63)).pretty ++ "\n", "", []⟩ ∧
      sideBySide (towerAlone 63) "p.json" =
        .ok ((writeRuleSet (towerAlone 63)).pretty ++ "\n") ∧
      loadPolicy (sideBySide (towerAlone 63)) "p.json" = .error (.document "p.json" .notJson) ∧
      run (sideBySide (towerAlone 63)) (fun _ => none) ["validate", "p.json"] =
        ⟨1, "", "error parsing JSON in 'p.json': \n", []⟩ := by
  have hdisk : sideBySide (towerAlone 63) "p.json" = .ok (printed (towerAlone 63)) := by
    rw [printed_towerAlone]
    rfl
  have hlevels : ¬ (writeRuleSet (towerAlone (α := Slot) 63).byName).levels ≤ Json.levelLimit := by
    rw [RuleSet.byName_of_link (link_towerAlone 63), levels_towerAlone]
    decide
  have hdocument := loadDocument_printed (loadSource_towerAlone (n := 63) (by decide)) hdisk
  have hjson := loadJson_printed hdisk
  rw [if_neg hlevels] at hdocument hjson
  have hcompiling : read ["compile", "p.policy"] = .ok compiling := by rfl
  have hvalidating : read ["validate", "p.json"] = .ok validating := by rfl
  refine ⟨?_, rfl, ?_, ?_⟩
  · rw [run, hcompiling]
    exact run_compiling (by decide) _
  · have hname : namesDocument "p.json" := by decide
    rw [loadPolicy, if_pos hname]
    exact hdocument
  · have hsettings :
        loadSettings (sideBySide (towerAlone 63)) validating.config = .ok .default := rfl
    rw [run, hvalidating]
    exact Invocation.run_validating_of_error (i := validating) rfl hsettings hjson

end Policy.Command
