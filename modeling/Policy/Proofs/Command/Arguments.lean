import Policy.Proofs.Command.Words

namespace Policy.Command

/-! ## Two command lines -/

/-- What a command line asks for, apart from what one flag says. -/
def Invocation.without (flag : Flag) (i : Invocation) : Invocation :=
  match flag, i.task with
  | .output, _ => { i with format := .text }
  | .quiet, _ => { i with quiet := false }
  | .config, _ => { i with config := none }
  | .logLevel, _ => { i with logLevel := none }
  | .request, .eval policy _ params offline failOnError =>
    { i with task := .eval policy "" params offline failOnError }
  | .param, .eval policy request _ offline failOnError =>
    { i with task := .eval policy request [] offline failOnError }
  | .offline, .eval policy request params _ failOnError =>
    { i with task := .eval policy request params false failOnError }
  | .failOnError, .eval policy request params offline _ =>
    { i with task := .eval policy request params offline false }
  | _, _ => i

variable {args args' front words words' back : List String} {i j : Invocation} {flag : Flag}
  {outer inner outer' inner' : Words} {verb : Verb}

theorem read_eq_ok_iff : read args = .ok i ↔ ∃ outer name words verb inner rest,
    Level.top.read .empty args = .ok (outer, name :: words) ∧ Verb.ofName? name = some verb ∧
    (Level.within verb).read .empty words = .ok (inner, rest) ∧
    inner.settle = .ok inner.settled ∧ outer.settle = .ok outer.settled ∧
    invocation? outer.settled inner.settled verb = some i := by
  constructor
  · intro h
    obtain ⟨⟨outer, after⟩, houter, h⟩ := bind_ok_iff.mp h
    dsimp only at h
    split at h
    · cases h
    · next name words =>
      split at h
      · cases h
      · next verb hverb =>
        obtain ⟨⟨inner, rest⟩, hinner, h⟩ := bind_ok_iff.mp h
        obtain ⟨settled, hsettled, h⟩ := bind_ok_iff.mp h
        obtain ⟨settled', hsettled', h⟩ := bind_ok_iff.mp h
        cases (Words.settle_eq_ok hsettled).1
        cases (Words.settle_eq_ok hsettled').1
        split at h
        · next hinvocation =>
          cases h
          exact ⟨outer, name, words, verb, inner, rest, houter, hverb, hinner, hsettled, hsettled',
            hinvocation⟩
        · cases h
  · rintro ⟨outer, name, words, verb, inner, rest, houter, hverb, hinner, hsettled, hsettled',
      hinvocation⟩
    simp only [read, houter, hverb, hinner, hsettled, hsettled', hinvocation, ok_bind]

/-- A flag of the command wins over one in front of it. -/
theorem invocation_eq_some_iff : invocation? outer inner verb = some i ↔
    inner.task? verb = some i.task ∧
    i.format = ((inner.value? .output <|> outer.value? .output).bind Format.ofName?).getD .text ∧
    i.quiet = (inner.has .quiet || outer.has .quiet) ∧
    i.config = (inner.value? .config <|> outer.value? .config) ∧
    i.logLevel = (inner.value? .logLevel <|> outer.value? .logLevel) := by
  have hquiet : (inner.value? .quiet <|> outer.value? .quiet).isSome =
      (inner.has .quiet || outer.has .quiet) := by
    rw [Words.has, Words.has]
    cases inner.value? .quiet <;> rfl
  refine Option.bind_eq_some_iff.trans ?_
  constructor
  · rintro ⟨task, htask, h⟩
    cases h
    exact ⟨htask, rfl, hquiet, rfl, rfl⟩
  · rintro ⟨htask, hformat, hloud, hconfig, hlevel⟩
    obtain ⟨format, quiet, config, logLevel, task⟩ := i
    cases hformat
    cases hconfig
    cases hlevel
    refine ⟨task, htask, ?_⟩
    rw [← hquiet] at hloud
    cases hloud
    rfl

/-- Words that differ in one flag ask for the same apart from what the flag says. -/
theorem without_of_invocation (houter : outer.without flag = outer'.without flag)
    (hinner : inner.without flag = inner'.without flag)
    (h : invocation? outer inner verb = some i) (h' : invocation? outer' inner' verb = some j) :
    i.without flag = j.without flag := by
  have hvalues (other : Flag) (hother : other ≠ flag) :
      outer.values other = outer'.values other ∧ inner.values other = inner'.values other := by
    rw [← Words.values_without hother outer, houter, Words.values_without hother,
      ← Words.values_without hother inner, hinner, Words.values_without hother]
    exact ⟨rfl, rfl⟩
  have hoperands : inner.operands = inner'.operands := (congrArg Words.operands hinner :)
  obtain ⟨htask, hformat, hquiet, hconfig, hlevel⟩ := invocation_eq_some_iff.mp h
  obtain ⟨htask', hformat', hquiet', hconfig', hlevel'⟩ := invocation_eq_some_iff.mp h'
  obtain ⟨format, quiet, config, logLevel, task⟩ := i
  obtain ⟨format', quiet', config', logLevel', task'⟩ := j
  dsimp only at *
  subst hformat hquiet hconfig hlevel hformat' hquiet' hconfig' hlevel'
  obtain ⟨file, hfile, htask⟩ := Option.bind_eq_some_iff.mp htask
  obtain ⟨file', hfile', htask'⟩ := Option.bind_eq_some_iff.mp htask'
  rw [hoperands, hfile'] at hfile
  cases hfile
  cases verb with
  | compile =>
    cases htask
    cases htask'
    cases flag <;> simp [Invocation.without, Words.has, Words.value?, hvalues]
  | validate =>
    cases htask
    cases htask'
    cases flag <;> simp [Invocation.without, Words.has, Words.value?, hvalues]
  | eval =>
    obtain ⟨request, hrequest, htask⟩ := Option.bind_eq_some_iff.mp htask
    obtain ⟨request', hrequest', htask'⟩ := Option.bind_eq_some_iff.mp htask'
    cases htask
    cases htask'
    have hsame (hflag : flag ≠ .request) : request = request' := by
      rw [Words.value?, (hvalues _ hflag.symm).2, ← Words.value?, hrequest'] at hrequest
      exact (Option.some.inj hrequest).symm
    cases flag <;> simp [Invocation.without, Words.has, Words.value?, hvalues, hsame]

/-- The two readings of a command line with a place for a flag, in front of the command or behind
it. -/
theorem exists_words_of_place (words words' : List String) (hdashes : "--" ∉ front)
    (hwords : words = [] ∨ flag.Spelled words)
    (hwords' : words' = [] ∨ flag.Spelled words') (h : read (front ++ (words ++ back)) = .ok i)
    (h' : read (front ++ (words' ++ back)) = .ok j) :
    ∃ outer outer' inner inner' verb, invocation? outer inner verb = some i ∧
      invocation? outer' inner' verb = some j ∧ outer.without flag = outer'.without flag ∧
      inner.without flag = inner'.without flag ∧
      (words' ≠ [] → inner'.has flag = true ∨ outer'.has flag = true) := by
  obtain ⟨outer, name, after, verb, inner, rest, houter, hverb, hinner, -, -, hi⟩ :=
    read_eq_ok_iff.mp h
  obtain ⟨outer', name', after', verb', inner', rest', houter', hverb', hinner', -, -, hj⟩ :=
    read_eq_ok_iff.mp h'
  obtain ⟨-, rfl, called, more, hmore, hafter, hafter'⟩ | ⟨hsame, hwithout, hgiven⟩ :=
    Level.read_varied hdashes hwords hwords' rfl houter houter'
  · obtain ⟨rfl, rfl⟩ := List.cons.inj hafter
    obtain ⟨rfl, rfl⟩ := List.cons.inj hafter'
    cases hverb.symm.trans hverb'
    obtain ⟨htop, -⟩ | ⟨-, hwithout, hgiven⟩ :=
      Level.read_varied hmore hwords hwords' rfl hinner hinner'
    · cases htop
    · exact ⟨_, _, _, _, verb, hi, hj, rfl, hwithout, fun hne => .inl (hgiven hne)⟩
  · cases hsame
    cases hverb.symm.trans hverb'
    cases hinner.symm.trans hinner'
    exact ⟨_, _, _, _, verb, hi, hj, hwithout, rfl, fun hne => .inr (hgiven hne)⟩

/-- Command lines with a place in front of all lone dashes where a flag is spelled out in one way or
another, or in none. -/
def Varied (flag : Flag) (args args' : List String) : Prop :=
  ∃ front words words' back, "--" ∉ front ∧ (words = [] ∨ flag.Spelled words) ∧
    (words' = [] ∨ flag.Spelled words') ∧ args = front ++ (words ++ back) ∧
    args' = front ++ (words' ++ back)

/-- A flag changes nothing in what is asked for but what it says itself. -/
theorem without_of_varied (hvaried : Varied flag args args') (h : read args = .ok i)
    (h' : read args' = .ok j) : i.without flag = j.without flag := by
  obtain ⟨front, words, words', back, hdashes, hwords, hwords', rfl, rfl⟩ := hvaried
  obtain ⟨_, _, _, _, _, hi, hj, houter, hinner, -⟩ :=
    exists_words_of_place words words' hdashes hwords hwords' h h'
  exact without_of_invocation houter hinner hi hj

theorem quiet_of_inserted (hdashes : "--" ∉ front) (h : read (front ++ back) = .ok i)
    (h' : read (front ++ "--quiet" :: back) = .ok j) : j = { i with quiet := true } := by
  have hspelled : Flag.quiet.Spelled ["--quiet"] := .bare rfl
  obtain ⟨_, _, _, _, _, hi, hj, houter, hinner, hgiven⟩ :=
    exists_words_of_place [] ["--quiet"] hdashes (.inl rfl) (.inr hspelled) h h'
  have hquiet : j.quiet = true := by
    rw [(invocation_eq_some_iff.mp hj).2.2.1, Bool.or_eq_true]
    exact hgiven (List.cons_ne_nil _ _)
  have hsame := without_of_invocation houter hinner hi hj
  obtain ⟨format, quiet, config, logLevel, task⟩ := i
  obtain ⟨format', quiet', config', logLevel', task'⟩ := j
  cases hquiet
  cases hsame
  rfl

/-- What is not quiet yet can be made quiet. -/
theorem read_quiet (h : read args = .ok i) (hloud : i.quiet = false) :
    read ("--quiet" :: args) = .ok { i with quiet := true } := by
  obtain ⟨outer, name, words, verb, inner, rest, houter, hverb, hinner, hsettled, hsettled', hi⟩ :=
    read_eq_ok_iff.mp h
  obtain ⟨htask, hformat, hquiet, hconfig, hlevel⟩ := invocation_eq_some_iff.mp hi
  have hfree : outer.settled.has .quiet = false := by
    rw [hloud] at hquiet
    exact (Bool.or_eq_false_iff.mp hquiet.symm).2
  have hbehind := Level.read_behind houter hfree
  have hsettle := Words.settle_behind hsettled' hfree
  have hvalue (other : Flag) (hother : other ≠ .quiet) :
      (outer.settled.behind .quiet).value? other = outer.settled.value? other := by
    rw [Words.value?, Words.values_behind hother, Words.value?]
  have hread : Level.top.read .empty ("--quiet" :: args) =
      .ok (outer.behind .quiet, name :: words) := by
    rw [Level.read_cons (Level.endsAt_dash rfl)]
    exact hbehind
  refine read_eq_ok_iff.mpr ⟨outer.behind .quiet, name, words, verb, inner, rest, hread, hverb,
    hinner, hsettled, ?_, ?_⟩
  · rw [hsettle, ← (Words.settle_eq_ok hsettle).1]
  · rw [← (Words.settle_eq_ok hsettle).1, invocation_eq_some_iff]
    refine ⟨htask, ?_, ?_, ?_, ?_⟩
    · rw [hvalue _ (by decide)]
      exact hformat
    · exact (Bool.or_true _).symm
    · rw [hvalue _ (by decide)]
      exact hconfig
    · rw [hvalue _ (by decide)]
      exact hlevel

end Policy.Command
