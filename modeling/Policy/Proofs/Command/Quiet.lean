import Policy.Proofs.Command.Arguments
import Policy.Proofs.Command.Validated

namespace Policy.Command

variable {disk : Disk} {network : Http.Network} {i : Invocation} {doc : Json}

/-! ## Outcomes without messages -/

/-- The outcome of a task with all reports left out. What is printed for compiled policies is no
report. -/
def Outcome.silent (task : Task) (outcome : Outcome) : Outcome :=
  { outcome with
    stderr := ""
    stdout :=
      match task with
      | .compile _ => outcome.stdout
      | .eval .. | .validate _ => "" }

theorem Report.invalid_ne_empty (messages : List String) : Report.invalid .json messages ≠ "" := by
  intro h
  have hlength := congrArg String.length h
  rw [Report.invalid, String.length_append] at hlength
  exact absurd hlength (Nat.succ_ne_zero _)

namespace Invocation

/-- What is asked for, without messages. -/
def silenced (i : Invocation) : Invocation := { i with quiet := true }

/-- A document is validated that objections are found to, and a document is to tell them. -/
structure Objects (i : Invocation) (disk : Disk) (doc : Json) : Prop where
  loads : ∃ file, i.task = .validate file ∧ loadJson disk file = .ok doc
  settles : ∃ settings, loadSettings disk i.config = .ok settings
  format : i.format = .json
  objections : Document.objections doc ≠ []

theorem Objects.silenced (h : i.Objects disk doc) : i.silenced.Objects disk doc :=
  ⟨h.loads, h.settles, h.format, h.objections⟩

variable [Wording]

theorem silenced_refused (i : Invocation) (failure : Failure) :
    i.silenced.refused failure = (i.refused failure).silent i.task := by
  unfold Outcome.silent
  split <;> rfl

theorem silenced_evaluate (i : Invocation) (far : Option Http.Network) (userAgent : String)
    (failOnError : Bool) (set : RuleSet Slot) (requests : Requests) :
    i.silenced.evaluate far userAgent failOnError set requests =
      { i.evaluate far userAgent failOnError set requests with stdout := "", stderr := "" } := by
  cases far <;> rfl

/-- Objections to a document are silenced unless they are reported as a document. -/
theorem silenced_validated (i : Invocation) (file : String) (doc : Json) :
    i.silenced.validated doc =
      if i.format = .json ∧ Document.objections doc ≠ [] then i.validated doc
      else (i.validated doc).silent (.validate file) := by
  unfold validated
  cases Document.objections doc with
  | nil => simp [silenced, Outcome.silent]
  | cons x xs =>
    cases hformat : i.format with
    | text => simp [silenced, Outcome.silent, hformat]
    | json => simp [silenced, hformat]

theorem silenced_run (h : ∀ doc, ¬ i.Objects disk doc) (network : Http.Network) :
    i.silenced.run disk network = (i.run disk network).silent i.task := by
  have hsame : i.silenced.task = i.task := rfl
  apply run_alike (i := i) (j := i.silenced) (fun loud still => still = loud.silent i.task) rfl rfl
    i.silenced_refused
  intro loaded settings hsettings
  apply perform_alike hsame
  · intro file set htask
    rw [htask]
    rfl
  · intro policy request params offline failOnError far set requests htask
    rw [silenced_evaluate, htask]
    rfl
  · intro file doc htask hdoc
    have hobjects : ¬ (i.format = .json ∧ Document.objections doc ≠ []) := fun hobjects =>
      h doc ⟨⟨file, htask, hdoc⟩, ⟨loaded, hsettings⟩, hobjects.1, hobjects.2⟩
    rw [i.silenced_validated file doc, if_neg hobjects, htask]

/-- Objections are told as they are without the flag. -/
theorem Objects.run (h : i.Objects disk doc) (network : Http.Network) :
    i.run disk network =
      ⟨1, "", Report.invalid .json ((Document.objections doc).map (·.message)), []⟩ := by
  obtain ⟨file, htask, hdoc⟩ := h.loads
  obtain ⟨settings, hsettings⟩ := h.settles
  rw [run_validating htask hsettings hdoc, validated]
  split
  · next hnone => exact absurd hnone h.objections
  · simp [h.format]

end Invocation

/-! ## Command lines with the flag and without it -/

section Runs

variable [Wording]

/-- The second outcome is the first one without its messages. The document of objections, which is
told in any case, is the only one that is left. -/
structure Quieted (i : Invocation) (disk : Disk) (loud still : Outcome) : Prop where
  status : still.status = loud.status
  received : still.received = loud.received
  compiled : ∀ file, i.task = .compile file → still.stdout = loud.stdout
  stdout : (∀ file, i.task ≠ .compile file) → still.stdout = ""
  stderr : still.stderr = "" ↔ ∀ doc, ¬ i.Objects disk doc
  objections : ∀ doc, i.Objects disk doc →
    still.stderr = Report.invalid .json ((Document.objections doc).map (·.message))

theorem quieted_silenced (i : Invocation) (disk : Disk) (network : Http.Network) :
    Quieted i disk (i.run disk network) (i.silenced.run disk network) := by
  by_cases hobjects : ∃ doc, i.Objects disk doc
  · obtain ⟨doc, h⟩ := hobjects
    have hloud := h.run network
    have hstill := h.silenced.run network
    obtain ⟨file, htask, hdoc⟩ := h.loads
    refine ⟨by rw [hloud, hstill], by rw [hloud, hstill], ?_, ?_, ?_, ?_⟩
    · intro file _
      rw [hloud, hstill]
    · intro _
      rw [hstill]
    · rw [hstill]
      exact iff_of_false (Report.invalid_ne_empty _) fun hnone => hnone doc h
    · intro other hother
      obtain ⟨file', htask', hother⟩ := hother.loads
      cases htask.symm.trans htask'
      cases hdoc.symm.trans hother
      rw [hstill]
  · rw [not_exists] at hobjects
    have hstill := Invocation.silenced_run hobjects network
    refine ⟨by rw [hstill]; rfl, by rw [hstill]; rfl, ?_, ?_, ?_, ?_⟩
    · intro file htask
      rw [hstill, htask]
      rfl
    · intro htask
      rw [hstill]
      unfold Outcome.silent
      split
      · next file hfile => exact absurd hfile (htask file)
      · rfl
      · rfl
    · rw [hstill]
      exact iff_of_true rfl hobjects
    · exact fun doc h => absurd h (hobjects doc)

/-- The flag for silence can be put in front of what is not silent yet. Wherever it stands as a
flag, the outcome is the same without messages, also where the command is refused. Only objections
that are to be told as a document are told nevertheless. -/
theorem quiet_leaves_objections (disk : Disk) (network : Http.Network) (args : List String)
    (i : Invocation) (hread : read args = .ok i) :
    (i.quiet = false → read ("--quiet" :: args) = .ok i.silenced) ∧
    ∀ front back j, args = front ++ back → "--" ∉ front →
      read (front ++ "--quiet" :: back) = .ok j →
        Quieted i disk (run disk network args) (run disk network (front ++ "--quiet" :: back)) := by
  refine ⟨read_quiet hread, ?_⟩
  rintro front back j rfl hdashes hquiet
  have hj : j = i.silenced := quiet_of_inserted hdashes hread hquiet
  simp only [run, hread, hquiet, hj]
  exact quieted_silenced i disk network

end Runs

/-- Objections in lines of text are left out. -/
theorem objections_quieted :
    (run (holding "p.json" "\x7b\x7d") (fun _ => none) ["validate", "p.json"]).stderr ≠ "" ∧
      read ["--quiet", "validate", "p.json"] = .ok validating.silenced ∧
      Quieted validating (holding "p.json" "\x7b\x7d")
        (run (holding "p.json" "\x7b\x7d") (fun _ => none) ["validate", "p.json"])
        (run (holding "p.json" "\x7b\x7d") (fun _ => none) ["validate", "--quiet", "p.json"]) := by
  obtain ⟨hfront, hwithin⟩ := quiet_leaves_objections (holding "p.json" "\x7b\x7d") (fun _ => none)
    ["validate", "p.json"] validating (by rfl)
  refine ⟨by decide +kernel, hfront rfl, ?_⟩
  exact hwithin ["validate"] ["p.json"] validating.silenced rfl (by decide) (by rfl)

/-- Objections are silenced as lines of text, but not as a document. -/
theorem objections_not_silenced :
    read ["--quiet", "--output", "json", "validate", "p.json"] =
        .ok ⟨.json, true, none, none, .validate "p.json"⟩ ∧
      run (holding "p.json" "\x7b\x7d") (fun _ => none)
          ["--quiet", "--output", "text", "validate", "p.json"] = ⟨1, "", "", []⟩ ∧
      run (holding "p.json" "\x7b\x7d") (fun _ => none)
          ["--quiet", "--output", "json", "validate", "p.json"] =
        ⟨1, "", "\x7b\n  \"valid\": false,\n  \"errors\": [\n" ++
          "    \"\\\"attributes\\\" is a required property\",\n" ++
          "    \"\\\"rules\\\" is a required property\"\n  ]\n\x7d\n", []⟩ := by
  refine ⟨by rfl, ?_, ?_⟩
  · decide +kernel
  · decide +kernel

end Policy.Command
