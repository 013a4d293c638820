import Policy.Command.Arguments
import Policy.Proofs.Outcome

namespace Policy.Command

/-! ## Words as they were read

The value of a flag is checked when the next word is taken. Where one reading has a word more than
another one, it has checked a value that the other one still holds, so that readings are compared
with this value among the flags.
-/

namespace Words

variable {w v s : Words} {flag other : Flag} {value : String}

/-- The words with one more value of a flag, checked or not. -/
def push (w : Words) (flag : Flag) (value : String) : Words :=
  { w with flags := w.flags ++ [(flag, value)] }

/-- The words with the value that was read last among the flags, checked or not. -/
def settled (w : Words) : Words :=
  match w.pending with
  | .held flag value => { w with pending := .nothing }.push flag value
  | _ => w

theorem settled_of_pending (h : w.pending = .nothing) : w.settled = w := by
  simp only [settled, h]

theorem onlyOperands_settled (w : Words) : w.settled.onlyOperands = w.onlyOperands := by
  unfold settled
  split <;> rfl

theorem settled_closed (w : Words) :
    { w with onlyOperands := true }.settled = { w.settled with onlyOperands := true } := by
  obtain ⟨_, _, pending, _⟩ := w
  cases pending <;> rfl

theorem awaits_settled (w : Words) : w.settled.awaits = w.awaits := by
  cases h : w.pending <;> simp [settled, awaits, push, h]

theorem settled_of_awaiting (h : w.settled.pending = .awaiting flag) : w.settled = w := by
  unfold settled at h ⊢
  split at h
  · cases h
  · rfl

theorem give_eq_ok (h : w.give flag value = .ok v) : v = w.push flag value := by
  unfold give at h
  split at h
  · exact (Except.ok.inj h).symm
  · cases h

theorem settle_eq_ok (h : w.settle = .ok s) : s = w.settled ∧ s.pending = .nothing := by
  unfold settle at h
  split at h
  · next hpending =>
    cases h
    exact ⟨(settled_of_pending hpending).symm, hpending⟩
  · cases h
  · next hpending =>
    rw [give_eq_ok h]
    exact ⟨by simp only [settled, hpending], rfl⟩

theorem settle_give_eq_ok (h : (w.settle >>= (·.give flag value)) = .ok v) :
    w.settled.pending = .nothing ∧ v.settled = w.settled.push flag value := by
  obtain ⟨s, hs, h⟩ := bind_ok_iff.mp h
  obtain ⟨rfl, hpending⟩ := settle_eq_ok hs
  rw [give_eq_ok h]
  exact ⟨hpending, settled_of_pending hpending⟩

/-- The words with a flag, which waits for its value unless it has one or needs none. -/
def flagged (w : Words) (flag : Flag) (attached : Option String) : Words :=
  match flag.value?, attached with
  | some _, none => { w with pending := .awaiting flag }
  | _, attached => w.push flag (attached.getD "")

theorem flagged_bare (h : flag.value? = none) (w : Words) :
    w.flagged flag none = w.push flag "" := by
  simp only [flagged, h]
  rfl

theorem flagged_waiting (h : flag.value? ≠ none) (w : Words) :
    w.flagged flag none = { w with pending := .awaiting flag } := by
  obtain ⟨name, hname⟩ := Option.ne_none_iff_exists'.mp h
  simp only [flagged, hname]

theorem flagged_attached (w : Words) (flag : Flag) (value : String) :
    w.flagged flag (some value) = w.push flag value := by
  unfold flagged
  split
  · next h => cases h
  · rfl

/-- The words without the values of a flag. -/
def without (flag : Flag) (w : Words) : Words :=
  { w with flags := w.flags.filter (·.1 ≠ flag) }

theorem values_without (h : other ≠ flag) (w : Words) :
    (w.without flag).values other = w.values other := by
  simp only [values, without, List.filter_filter]
  congr 1
  apply List.filter_congr
  intro p _
  by_cases hp : p.1 = other
  · simp [hp, h]
  · simp [hp]

theorem without_push (w : Words) (flag : Flag) (value : String) :
    (w.push flag value).without flag = w.without flag := by
  simp [without, push]

theorem has_iff : w.has flag = true ↔ ∃ value, (flag, value) ∈ w.flags := by
  simp [has, value?, values]

theorem has_push_self (w : Words) (flag : Flag) (value : String) :
    (w.push flag value).has flag = true :=
  has_iff.mpr ⟨value, List.mem_append_right _ (List.mem_singleton.mpr rfl)⟩

end Words

/-! ## What a word adds -/

namespace Level

variable {level : Level} {w v : Words} {word : String}

/-- The name of a flag and the value behind an equals sign. -/
def nameOf (word : List Char) : String := String.ofList (word.takeWhile (· ≠ '='))

def attachedTo (word : List Char) : Option String :=
  (word.dropWhile (· ≠ '=')).tail?.map String.ofList

/-- The words with one more, whether or not it is allowed. -/
def added (level : Level) (w : Words) (word : String) : Words :=
  if w.onlyOperands then { w with operands := w.operands ++ [word] }
  else
    match word.toList with
    | ['-', '-'] => { w with onlyOperands := true }
    | '-' :: '-' :: rest =>
      match level.flags.find? (·.name = nameOf rest) with
      | some flag => w.flagged flag (attachedTo rest)
      | none => w
    | '-' :: _ :: _ => w
    | _ =>
      match w.pending with
      | .awaiting flag => { w with pending := .nothing }.push flag word
      | _ => { w with operands := w.operands ++ [word] }

theorem takeLong_eq_ok {rest : List Char} (h : level.takeLong w rest = .ok v) :
    w.settled.pending = .nothing ∧
      ∃ flag, level.flags.find? (·.name = nameOf rest) = some flag ∧
        v.settled = w.settled.flagged flag (attachedTo rest) := by
  unfold takeLong at h
  dsimp only at h
  split at h
  · obtain ⟨_, _, h⟩ := bind_ok_iff.mp h
    cases h
  · cases h
  · split at h
    · cases h
    · next flag hflag =>
      split at h
      · next hvalue hattached =>
        have hattached : attachedTo rest = none := hattached
        obtain ⟨hpending, hv⟩ := Words.settle_give_eq_ok h
        exact ⟨hpending, flag, hflag, by rw [hv, hattached, Words.flagged_bare hvalue]⟩
      · cases h
      · next hvalue hattached =>
        have hattached : attachedTo rest = none := hattached
        have hvalue : flag.value? ≠ none := by simp [hvalue]
        obtain ⟨s, hs, h⟩ := bind_ok_iff.mp h
        obtain ⟨rfl, hpending⟩ := Words.settle_eq_ok hs
        cases h
        exact ⟨hpending, flag, hflag, by rw [hattached, Words.flagged_waiting hvalue]; rfl⟩
      · next value hvalue hattached =>
        have hattached : attachedTo rest = some value := hattached
        obtain ⟨hpending, hv⟩ := Words.settle_give_eq_ok h
        exact ⟨hpending, flag, hflag, by rw [hv, hattached, Words.flagged_attached]⟩

theorem takeOperand_eq_ok (h : level.takeOperand w word = .ok v) :
    w.settled.pending = .nothing ∧
      v.settled = { w.settled with operands := w.settled.operands ++ [word] } := by
  obtain ⟨s, hs, h⟩ := bind_ok_iff.mp h
  obtain ⟨rfl, hpending⟩ := Words.settle_eq_ok hs
  split at h
  · cases h
    exact ⟨hpending, Words.settled_of_pending hpending⟩
  · cases h

theorem added_dashes (hopen : w.onlyOperands = false) (hword : word.toList = ['-', '-']) :
    level.added w word = { w with onlyOperands := true } := by
  simp [added, hopen, hword]

theorem added_long {rest : List Char} {flag : Flag} (hopen : w.onlyOperands = false)
    (hword : word.toList = '-' :: '-' :: rest) (hrest : rest ≠ [])
    (hflag : level.flags.find? (·.name = nameOf rest) = some flag) :
    level.added w word = w.flagged flag (attachedTo rest) := by
  obtain ⟨c, cs, rfl⟩ := List.exists_cons_of_ne_nil hrest
  simp only [added, hopen, hword, hflag]
  rfl

theorem added_plain (hopen : w.onlyOperands = false)
    (hplain : ∀ letter rest, word.toList ≠ '-' :: letter :: rest) :
    level.added w word =
      match w.pending with
      | .awaiting flag => { w with pending := .nothing }.push flag word
      | _ => { w with operands := w.operands ++ [word] } := by
  unfold added
  rw [if_neg (Bool.eq_false_iff.mp hopen)]
  split
  · next h => exact absurd h (hplain _ _)
  · next h => exact absurd h (hplain _ _)
  · next h => exact absurd h (hplain _ _)
  · rfl

/-- A word that is taken adds what it says. -/
theorem settled_take (h : level.take w word = .ok v) :
    v.settled = level.added w.settled word := by
  have honly := w.onlyOperands_settled
  unfold take at h
  split at h
  · next hends =>
    rw [added, if_pos (honly.trans hends)]
    exact (takeOperand_eq_ok h).2
  · next hopen =>
    have hopen : w.settled.onlyOperands = false := honly.trans (Bool.eq_false_iff.mpr hopen)
    split at h
    · next hword =>
      cases h
      rw [added_dashes hopen hword]
      exact w.settled_closed
    · next rest hrest hword =>
      obtain ⟨-, flag, hflag, hv⟩ := takeLong_eq_ok h
      rw [added_long hopen hword hrest hflag, hv]
    · unfold takeShort at h
      split at h
      · obtain ⟨_, _, h⟩ := bind_ok_iff.mp h
        cases h
      · cases h
    · next hplain =>
      rw [added_plain hopen fun letter rest hword => hplain letter rest hword]
      split at h
      · next flag hpending =>
        cases h
        simp [Words.settled, hpending]
      · obtain ⟨hpending, hv⟩ := takeOperand_eq_ok h
        rw [hv]
        simp only [hpending]

/-- What a word adds does not depend on the values of flags. -/
theorem without_added (level : Level) (flag : Flag) (w : Words) (word : String) :
    (level.added w word).without flag = (level.added (w.without flag) word).without flag := by
  have honly : (w.without flag).onlyOperands = w.onlyOperands := rfl
  have hpending : (w.without flag).pending = w.pending := rfl
  unfold added
  rw [honly, hpending]
  split
  · simp [Words.without, List.filter_filter]
  · split
    · simp [Words.without, List.filter_filter]
    · split
      · unfold Words.flagged
        split <;> simp [Words.without, Words.push, List.filter_filter]
      · simp [Words.without, List.filter_filter]
    · simp [Words.without, List.filter_filter]
    · split <;> simp [Words.without, Words.push, List.filter_filter]

/-- Flags that were given stay, and only two dashes alone end them. -/
theorem frame_added (level : Level) (w : Words) (word : String) :
    w.flags ⊆ (level.added w word).flags ∧
      (word ≠ "--" → (level.added w word).onlyOperands = w.onlyOperands) := by
  unfold added
  split
  · exact ⟨List.Subset.refl _, fun _ => rfl⟩
  · split
    · next hword =>
      exact ⟨List.Subset.refl _, fun hne => absurd (String.toList_inj.mp hword) hne⟩
    · split
      · unfold Words.flagged
        split
        · exact ⟨List.Subset.refl _, fun _ => rfl⟩
        · exact ⟨List.subset_append_left _ _, fun _ => rfl⟩
      · exact ⟨List.Subset.refl _, fun _ => rfl⟩
    · exact ⟨List.Subset.refl _, fun _ => rfl⟩
    · split
      · exact ⟨List.subset_append_left _ _, fun _ => rfl⟩
      · exact ⟨List.Subset.refl _, fun _ => rfl⟩

end Level

/-! ## Flags as they are spelled -/

/-- The words that give a value to a flag, or that give a flag without one. -/
inductive Flag.Spelled (flag : Flag) : List String → Prop where
  | bare : flag.value? = none → Spelled flag ["--" ++ flag.name]
  | attached (value : String) : flag.value? ≠ none →
      Spelled flag ["--" ++ flag.name ++ "=" ++ value]
  | detached (value : String) : flag.value? ≠ none → value.toList.head? ≠ some '-' →
      Spelled flag ["--" ++ flag.name, value]

theorem Flag.name_injective {flag other : Flag} (h : flag.name = other.name) : flag = other := by
  cases flag <;> cases other <;> first | rfl | exact absurd h (by decide)

theorem Topic.ofName?_dash {word : String} (h : word.toList.head? = some '-') :
    Topic.ofName? word = none := by
  have hverb : Verb.ofName? word = none := by
    rw [Verb.ofName?, List.find?_eq_none]
    intro verb _ hname
    rw [← of_decide_eq_true hname] at h
    cases verb <;> exact absurd h (by decide)
  unfold Topic.ofName?
  split
  · exact absurd h (by decide)
  · rw [hverb, Option.map_none]

namespace Level

variable {level : Level} {w v : Words} {word : String} {flag : Flag} {words rest back : List String}

theorem read_cons (h : level.endsAt w word = false) (words : List String) :
    level.read w (word :: words) = level.take w word >>= (level.read · words) := by
  rw [read, if_neg (Bool.eq_false_iff.mp h)]

theorem endsAt_dash (h : word.toList.head? = some '-') : level.endsAt w word = false := by
  simp [endsAt, Topic.ofName?_dash h]

theorem endsAt_awaiting (h : w.pending = .awaiting flag) : level.endsAt w word = false := by
  simp [endsAt, Words.awaits, h]

theorem take_awaiting (hopen : w.onlyOperands = false) (hpending : w.pending = .awaiting flag)
    (hword : word.toList.head? ≠ some '-') :
    level.take w word = .ok { w with pending := .held flag word } := by
  unfold take
  rw [if_neg (Bool.eq_false_iff.mp hopen)]
  split
  · next h => exact absurd (by rw [h]; rfl) hword
  · next h => exact absurd (by rw [h]; rfl) hword
  · next h => exact absurd (by rw [h]; rfl) hword
  · simp only [hpending]

theorem nameOf_append {name attached : List Char} (hname : ∀ c ∈ name, decide (c ≠ '=') = true)
    (hattached : attached = [] ∨ attached.head? = some '=') :
    nameOf (name ++ attached) = String.ofList name ∧
      attachedTo (name ++ attached) = attached.tail?.map String.ofList := by
  rw [nameOf, attachedTo, List.takeWhile_append_of_pos hname, List.dropWhile_append_of_pos hname]
  rcases hattached with rfl | hhead
  · simp
  · obtain ⟨cs, rfl⟩ := List.head?_eq_some_iff.mp hhead
    simp

/-- A flag behind two dashes is known by its name, with or without a value behind it. -/
theorem take_name (flag : Flag) (attached : List Char) (hopen : w.onlyOperands = false)
    (hattached : attached = [] ∨ attached.head? = some '=')
    (hword : word.toList = '-' :: '-' :: (flag.name.toList ++ attached))
    (h : level.take w word = .ok v) :
    w.settled.pending = .nothing ∧
      v.settled = w.settled.flagged flag (attached.tail?.map String.ofList) := by
  have hname : ∀ c ∈ flag.name.toList, decide (c ≠ '=') = true :=
    List.all_eq_true.mp (by cases flag <;> decide)
  obtain ⟨hnameOf, hattachedTo⟩ := nameOf_append hname hattached
  have hlong : level.takeLong w (flag.name.toList ++ attached) = .ok v := by
    obtain ⟨c, cs, hcons⟩ : ∃ c cs, flag.name.toList = c :: cs := by
      cases flag <;> exact ⟨_, _, rfl⟩
    rw [hcons, List.cons_append] at hword ⊢
    unfold take at h
    rw [if_neg (Bool.eq_false_iff.mp hopen)] at h
    simpa only [hword] using h
  obtain ⟨hpending, other, hother, hv⟩ := takeLong_eq_ok hlong
  have hsame : other.name = flag.name := by
    simpa [hnameOf] using List.find?_some hother
  cases Flag.name_injective hsame
  rw [hattachedTo] at hv
  exact ⟨hpending, hv⟩

/-- What is read behind a flag that is spelled out is read with its value. -/
theorem exists_read_of_spelled (hwords : flag.Spelled words) (hopen : w.onlyOperands = false)
    (h : level.read w (words ++ back) = .ok (v, rest)) :
    ∃ u value, level.read u back = .ok (v, rest) ∧ u.settled = w.settled.push flag value := by
  cases hwords with
  | bare hvalue =>
    rw [List.singleton_append, read_cons (endsAt_dash (by simp))] at h
    obtain ⟨u, hu, h⟩ := bind_ok_iff.mp h
    obtain ⟨-, hsettled⟩ := take_name flag [] hopen (.inl rfl) (by simp) hu
    exact ⟨u, "", h, hsettled.trans (Words.flagged_bare hvalue _)⟩
  | attached value hvalue =>
    rw [List.singleton_append, read_cons (endsAt_dash (by simp))] at h
    obtain ⟨u, hu, h⟩ := bind_ok_iff.mp h
    obtain ⟨-, hsettled⟩ :=
      take_name flag ('=' :: value.toList) hopen (.inr rfl) (by simp) hu
    have hattached : ('=' :: value.toList).tail?.map String.ofList = some value := by simp
    rw [hattached, Words.flagged_attached] at hsettled
    exact ⟨u, value, h, hsettled⟩
  | detached value hvalue hword =>
    -- The name alone leaves the flag waiting, so that the next word is its value and no command.
    rw [List.cons_append, read_cons (endsAt_dash (by simp))] at h
    obtain ⟨u, hu, h⟩ := bind_ok_iff.mp h
    obtain ⟨hnothing, hsettled⟩ := take_name flag [] hopen (.inl rfl) (by simp) hu
    have hsettled : u.settled = { w.settled with pending := .awaiting flag } :=
      hsettled.trans (Words.flagged_waiting hvalue _)
    have hsame : u.settled = u := Words.settled_of_awaiting (congrArg Words.pending hsettled)
    have hu : u = { w.settled with pending := .awaiting flag } := hsame.symm.trans hsettled
    have hopen' : u.onlyOperands = false := by
      rw [hu]
      exact w.onlyOperands_settled.trans hopen
    have hawaiting : u.pending = .awaiting flag := by rw [hu]
    rw [List.singleton_append, read_cons (endsAt_awaiting hawaiting),
      take_awaiting hopen' hawaiting hword, ok_bind] at h
    refine ⟨_, value, h, ?_⟩
    show { u with pending := .nothing }.push flag value = w.settled.push flag value
    rw [hu, ← hnothing]

/-! ## Two readings of a level -/

theorem endsAt_without (flag : Flag) (w : Words) (word : String) :
    level.endsAt (w.settled.without flag) word = level.endsAt w word := by
  have hopen : (w.settled.without flag).onlyOperands = w.onlyOperands := w.onlyOperands_settled
  have hawaits : (w.settled.without flag).awaits = w.awaits := w.awaits_settled
  rw [endsAt, endsAt, hopen, hawaits]

/-- Words that differ in one flag stay so, and the same command follows. -/
theorem without_read {w' v' : Words} {rest' : List String}
    (hwords : w.settled.without flag = w'.settled.without flag)
    (h : level.read w words = .ok (v, rest)) (h' : level.read w' words = .ok (v', rest')) :
    rest = rest' ∧ v.settled.without flag = v'.settled.without flag := by
  induction words generalizing w w' with
  | nil =>
    cases h
    cases h'
    exact ⟨rfl, hwords⟩
  | cons word words ih =>
    have hends : level.endsAt w' word = level.endsAt w word := by
      rw [← endsAt_without flag, ← endsAt_without flag w, hwords]
    cases hend : level.endsAt w word with
    | true =>
      rw [read, if_pos hend] at h
      rw [read, if_pos (hends.trans hend)] at h'
      cases h
      cases h'
      exact ⟨rfl, hwords⟩
    | false =>
      rw [read_cons hend] at h
      rw [read_cons (hends.trans hend)] at h'
      obtain ⟨u, hu, h⟩ := bind_ok_iff.mp h
      obtain ⟨u', hu', h'⟩ := bind_ok_iff.mp h'
      refine ih ?_ h h'
      rw [settled_take hu, settled_take hu', without_added, hwords, ← without_added]

/-- A flag that was given stays given. -/
theorem has_take (hgiven : w.settled.has flag = true) (h : level.take w word = .ok v) :
    v.settled.has flag = true := by
  obtain ⟨value, hvalue⟩ := Words.has_iff.mp hgiven
  rw [settled_take h]
  exact Words.has_iff.mpr ⟨value, (frame_added level _ word).1 hvalue⟩

theorem has_read (hgiven : w.settled.has flag = true) (h : level.read w words = .ok (v, rest)) :
    v.settled.has flag = true := by
  induction words generalizing w with
  | nil =>
    cases h
    exact hgiven
  | cons word words ih =>
    cases hend : level.endsAt w word with
    | true =>
      rw [read, if_pos hend] at h
      cases h
      exact hgiven
    | false =>
      rw [read_cons hend] at h
      obtain ⟨u, hu, h⟩ := bind_ok_iff.mp h
      exact ih (has_take hgiven hu) h

/-- The words in front are read in the same way whatever comes behind them: up to a command that
begins among them, to their end, or to one that is not taken. -/
theorem read_append (level : Level) (w : Words) (front : List String) :
    (level = .top ∧ ∃ v name words, name :: words <:+ front ∧
      ∀ back, level.read w (front ++ back) = .ok (v, name :: (words ++ back))) ∨
    (∃ u, ("--" ∉ front → u.onlyOperands = w.onlyOperands) ∧
      ∀ back, level.read w (front ++ back) = level.read u back) ∨
    ∃ notice, ∀ back, level.read w (front ++ back) = .error notice := by
  induction front generalizing w with
  | nil => exact .inr (.inl ⟨w, fun _ => rfl, fun _ => rfl⟩)
  | cons word front ih =>
    cases hend : level.endsAt w word with
    | true =>
      have htop : level = .top := by
        simp only [endsAt, Bool.and_eq_true, decide_eq_true_eq] at hend
        exact hend.1.1.1
      refine .inl ⟨htop, w, word, front, List.suffix_refl _, fun back => ?_⟩
      rw [List.cons_append, read, if_pos hend]
    | false =>
      have hread (back : List String) : level.read w (word :: front ++ back) =
          level.take w word >>= (level.read · (front ++ back)) := read_cons hend _
      cases htake : level.take w word with
      | error notice =>
        refine .inr (.inr ⟨notice, fun back => ?_⟩)
        rw [hread, htake, error_bind]
      | ok u =>
        simp only [hread, htake, ok_bind]
        obtain ⟨htop, v, name, words, hsuffix, hall⟩ | ⟨x, hopen, hall⟩ | herror := ih u
        · exact .inl ⟨htop, v, name, words, hsuffix.trans (List.suffix_cons _ _), hall⟩
        · refine .inr (.inl ⟨x, fun hdashes => ?_, hall⟩)
          rw [List.mem_cons, not_or] at hdashes
          rw [hopen hdashes.2, ← u.onlyOperands_settled, settled_take htake,
            (frame_added _ _ _).2 (Ne.symm hdashes.1), w.onlyOperands_settled]
        · exact .inr (.inr herror)

/-- A place for a flag may stay empty. -/
theorem exists_read_of_place (hwords : words = [] ∨ flag.Spelled words)
    (hopen : w.onlyOperands = false) (h : level.read w (words ++ back) = .ok (v, rest)) :
    ∃ u, level.read u back = .ok (v, rest) ∧ u.settled.without flag = w.settled.without flag ∧
      (words ≠ [] → u.settled.has flag = true) := by
  rcases hwords with rfl | hwords
  · exact ⟨w, h, rfl, fun hne => absurd rfl hne⟩
  · obtain ⟨u, value, hu, hsettled⟩ := exists_read_of_spelled hwords hopen h
    refine ⟨u, hu, ?_, fun _ => ?_⟩
    · rw [hsettled, Words.without_push]
    · rw [hsettled, Words.has_push_self]

/-- A place for a flag is behind the command that follows, or changes this flag only. -/
theorem read_varied {front words' rest' : List String} {v' : Words} (hdashes : "--" ∉ front)
    (hwords : words = [] ∨ flag.Spelled words) (hwords' : words' = [] ∨ flag.Spelled words')
    (hopen : w.onlyOperands = false)
    (h : level.read w (front ++ (words ++ back)) = .ok (v, rest))
    (h' : level.read w (front ++ (words' ++ back)) = .ok (v', rest')) :
    (level = .top ∧ v = v' ∧ ∃ name more, "--" ∉ more ∧ rest = name :: (more ++ (words ++ back)) ∧
      rest' = name :: (more ++ (words' ++ back))) ∨
    (rest = rest' ∧ v.settled.without flag = v'.settled.without flag ∧
      (words' ≠ [] → v'.settled.has flag = true)) := by
  obtain ⟨htop, x, name, more, hsuffix, hall⟩ | ⟨x, hx, hall⟩ | ⟨notice, hall⟩ :=
    read_append level w front
  · rw [hall] at h h'
    cases h
    cases h'
    have hmore : "--" ∉ more := fun hmem =>
      hdashes (hsuffix.subset (List.mem_cons_of_mem _ hmem))
    exact .inl ⟨htop, rfl, name, more, hmore, rfl, rfl⟩
  · have hxopen : x.onlyOperands = false := (hx hdashes).trans hopen
    rw [hall] at h h'
    obtain ⟨u, hu, hwithout, -⟩ := exists_read_of_place hwords hxopen h
    obtain ⟨u', hu', hwithout', hgiven⟩ := exists_read_of_place hwords' hxopen h'
    obtain ⟨hrest, hsame⟩ := without_read (hwithout.trans hwithout'.symm) hu hu'
    exact .inr ⟨hrest, hsame, fun hne => has_read (hgiven hne) hu'⟩
  · rw [hall] at h
    cases h

end Level

/-! ## A flag in front of all words -/

namespace Words

variable {w v s : Words} {flag other : Flag} {value : String}

/-- The words behind a flag without a value. -/
def behind (flag : Flag) (w : Words) : Words := { w with flags := (flag, "") :: w.flags }

theorem values_behind (h : other ≠ flag) (w : Words) :
    (w.behind flag).values other = w.values other := by
  rw [values, behind, List.filter_cons_of_neg (by simpa using h.symm), values]

theorem give_behind (h : w.give other value = .ok v) (hfree : v.has flag = false) :
    (w.behind flag).give other value = .ok (v.behind flag) := by
  have hv := give_eq_ok h
  have hother : other ≠ flag := by
    rintro rfl
    rw [hv, has_push_self] at hfree
    cases hfree
  have hhas : (w.behind flag).has other = w.has other := by
    rw [has, value?, values_behind hother, has, value?]
  unfold give at h ⊢
  rw [hhas]
  split at h
  · next hallowed =>
    rw [if_pos hallowed, hv]
    rfl
  · cases h

theorem settle_behind (h : w.settle = .ok s) (hfree : s.has flag = false) :
    (w.behind flag).settle = .ok (s.behind flag) := by
  unfold settle at h ⊢
  have hpending : (w.behind flag).pending = w.pending := rfl
  rw [hpending]
  split at h
  · cases h
    rfl
  · cases h
  · exact give_behind (w := { w with pending := .nothing }) h hfree

theorem settle_give_behind (h : (w.settle >>= (·.give other value)) = .ok v)
    (hfree : w.settled.has flag = false) (hfree' : v.settled.has flag = false) :
    ((w.behind flag).settle >>= (·.give other value)) = .ok (v.behind flag) := by
  obtain ⟨-, hv⟩ := settle_give_eq_ok h
  obtain ⟨s, hs, h⟩ := bind_ok_iff.mp h
  obtain ⟨rfl, -⟩ := settle_eq_ok hs
  rw [hv, ← give_eq_ok h] at hfree'
  rw [settle_behind hs hfree, ok_bind]
  exact give_behind h hfree'

end Words

namespace Level

variable {level : Level} {w v : Words} {word : String} {flag : Flag}

theorem takeOperand_behind (h : level.takeOperand w word = .ok v)
    (hfree : w.settled.has flag = false) :
    level.takeOperand (w.behind flag) word = .ok (v.behind flag) := by
  obtain ⟨s, hs, h⟩ := bind_ok_iff.mp h
  obtain ⟨rfl, -⟩ := Words.settle_eq_ok hs
  rw [takeOperand, Words.settle_behind hs hfree, ok_bind]
  split at h
  · next hallowed =>
    cases h
    exact if_pos hallowed
  · cases h

theorem takeLong_behind {rest : List Char} (h : level.takeLong w rest = .ok v)
    (hfree : w.settled.has flag = false) (hfree' : v.settled.has flag = false) :
    level.takeLong (w.behind flag) rest = .ok (v.behind flag) := by
  unfold takeLong at h ⊢
  dsimp only at h ⊢
  split at h
  · obtain ⟨_, _, h⟩ := bind_ok_iff.mp h
    cases h
  · cases h
  · split at h
    · cases h
    · split at h
      · exact Words.settle_give_behind h hfree hfree'
      · cases h
      · obtain ⟨s, hs, h⟩ := bind_ok_iff.mp h
        cases h
        cases (Words.settle_eq_ok hs).1
        rw [Words.settle_behind hs hfree, ok_bind]
        rfl
      · exact Words.settle_give_behind h hfree hfree'

theorem take_behind (h : level.take w word = .ok v) (hfree : v.settled.has flag = false) :
    level.take (w.behind flag) word = .ok (v.behind flag) := by
  have hbefore : w.settled.has flag = false := by
    rw [Bool.eq_false_iff]
    intro hgiven
    rw [has_take hgiven h] at hfree
    cases hfree
  unfold take at h ⊢
  have honly : (w.behind flag).onlyOperands = w.onlyOperands := rfl
  have hpending : (w.behind flag).pending = w.pending := rfl
  rw [honly, hpending]
  split at h
  · next hends =>
    rw [if_pos hends]
    exact takeOperand_behind h hbefore
  · next hopen =>
    rw [if_neg hopen]
    split at h
    · cases h
      rfl
    · exact takeLong_behind h hbefore hfree
    · unfold takeShort at h
      split at h
      · obtain ⟨_, _, h⟩ := bind_ok_iff.mp h
        cases h
      · cases h
    · split at h
      · cases h
        rfl
      · exact takeOperand_behind h hbefore

theorem read_behind {words rest : List String} (h : level.read w words = .ok (v, rest))
    (hfree : v.settled.has flag = false) :
    level.read (w.behind flag) words = .ok (v.behind flag, rest) := by
  induction words generalizing w with
  | nil =>
    cases h
    rfl
  | cons word words ih =>
    have hends : level.endsAt (w.behind flag) word = level.endsAt w word := rfl
    cases hend : level.endsAt w word with
    | true =>
      rw [read, if_pos hend] at h
      rw [read, if_pos (hends.trans hend)]
      cases h
      rfl
    | false =>
      rw [read_cons hend] at h
      rw [read_cons (hends.trans hend)]
      obtain ⟨u, hu, h⟩ := bind_ok_iff.mp h
      have hfree' : u.settled.has flag = false := by
        rw [Bool.eq_false_iff]
        intro hgiven
        rw [has_read hgiven h] at hfree
        cases hfree
      rw [take_behind hu hfree', ok_bind]
      exact ih h

end Level

end Policy.Command
