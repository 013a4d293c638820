import Policy.Proofs.Source.Lines
import Policy.Proofs.Source.Tokens
import Mathlib.Data.List.TakeWhile

namespace Policy.Source

/-! ## What stands for a token -/

/-- The characters between the quotes of a string, and what they stand for. -/
inductive Unquoted : List Char → List Char → Prop
  | nil : Unquoted [] []
  | plain {c : Char} {body content : List Char} (hquote : c ≠ '"') (hslash : c ≠ '\\')
    (hline : c ≠ '\n') (h : Unquoted body content) : Unquoted (c :: body) (c :: content)
  | pair {c : Char} {body content : List Char} (h : Unquoted body content) :
    Unquoted ('\\' :: c :: body) (Lead.escape c ++ content)

/-- Digits, perhaps behind a minus. -/
def IsNumeral (written : List Char) : Prop :=
  ∃ sign digits, written = sign ++ digits ∧ (sign = [] ∨ sign = ['-']) ∧ Decimal.isDigits digits

/-- The characters stand for the token. -/
def Token.SpelledBy : Token → List Char → Prop
  | .keyword k, written => written = k.text.toList
  | .name text, written => written = text.toList ∧ isIdentifier text
  | .str text, written => ∃ body, written = '"' :: (body ++ ['"']) ∧ Unquoted body text.toList
  | .int n, written => IsNumeral written ∧ Decimal.read? written = some n.val
  | .mark m, written => written = m.text.toList
  | .eof, _ => False

/-- Layout, or a comment up to the end of its line. -/
def Skips (skipped rest : List Char) : Prop :=
  Layout skipped ∨ ∃ body, skipped = '/' :: '/' :: body ∧ '\n' ∉ body ∧
    (rest = [] ∨ ∃ more, rest = '\n' :: more)

/-- What the characters begin with, and the rest of them. -/
def Lead.Begins : Lead → List Char → List Char → Prop
  | .layout skipped, cs, rest => cs = skipped ++ rest ∧ Skips skipped rest
  | .token t width, cs, rest =>
    ∃ written, cs = written ++ rest ∧ written.length = width ∧ t.SpelledBy written

/-! ## What no token can begin with -/

/-- Behind an opening quote, no closing one comes before the end of the line or of the text. -/
inductive Unclosed : Cause → List Char → Prop
  | ending : Unclosed .unclosedString []
  | line (more : List Char) : Unclosed .unclosedString ('\n' :: more)
  | escape : Unclosed .unclosedEscape ['\\']
  | plain {cause : Cause} {c : Char} {cs : List Char} (hquote : c ≠ '"') (hslash : c ≠ '\\')
    (hline : c ≠ '\n') (h : Unclosed cause cs) : Unclosed cause (c :: cs)
  | pair {cause : Cause} {c : Char} {cs : List Char} (h : Unclosed cause cs) :
    Unclosed cause ('\\' :: c :: cs)

/-- The cause lies at the first of the characters. -/
def Offends : Cause → List Char → Prop
  | .unclosedComment, cs => ∃ body, cs = '/' :: '*' :: body ∧ Unended body
  | .unclosedString, cs => ∃ behind, cs = '"' :: behind ∧ Unclosed .unclosedString behind
  | .unclosedEscape, cs => ∃ behind, cs = '"' :: behind ∧ Unclosed .unclosedEscape behind
  | .integerRange digits, cs =>
    ∃ more, cs = digits.toList ++ more ∧ IsNumeral digits.toList ∧
      ∀ n : Number, Decimal.read? digits.toList ≠ some n.val
  | .strayCharacter c, cs =>
    ∃ more, cs = c :: more ∧ c.isAlphanum = false ∧ Unicode.isBlank c = false ∧ c ≠ '"' ∧
      Lead.mark? cs = none
  | _, _ => False

/-- What is said of the characters is true: what they begin with, or why they begin with nothing. -/
def Told (cs : List Char) : Except Cause (Lead × List Char) → Prop
  | .ok (lead, rest) => lead.Begins cs rest
  | .error cause => Offends cause cs

theorem Token.spelledBy_ofWord {word : String} (h : isWord word) :
    (Token.ofWord word).SpelledBy word.toList := by
  unfold Token.ofWord
  split
  · next k hk => rw [Token.SpelledBy, Keyword.text_of_ofText hk]
  · next hk => exact ⟨rfl, by simp [isIdentifier, h, hk]⟩

theorem Unclosed.offends {cause : Cause} {cs : List Char} (h : Unclosed cause cs) :
    Offends cause ('"' :: cs) := by
  have hcause : cause = .unclosedString ∨ cause = .unclosedEscape := by
    induction h with
    | ending | line more => exact .inl rfl
    | escape => exact .inr rfl
    | plain _ _ _ _ ih => exact ih
    | pair _ ih => exact ih
  rcases hcause with rfl | rfl
  · exact ⟨cs, rfl, h⟩
  · exact ⟨cs, rfl, h⟩

theorem eq_error_of_bind_pure {ε α β : Type} {x : Except ε α} {f : α → β} {e : ε}
    (h : (x >>= fun a => pure (f a)) = .error e) : x = .error e := by
  cases x with
  | error e' =>
    cases h
    rfl
  | ok a => cases h

namespace Lead

theorem blockEnd_eq_some {cs ended rest : List Char} (h : blockEnd? cs = some (ended, rest)) :
    ∃ body, ended = body ++ ['*', '/'] ∧ cs = ended ++ rest ∧ Unended body := by
  induction cs using blockEnd?.induct generalizing ended with
  | case1 => cases h
  | case2 cs =>
    cases h
    exact ⟨[], rfl, rfl, by simp [Unended]⟩
  | case3 c cs hne ih =>
    rw [blockEnd?] at h
    · obtain ⟨⟨inner, behind⟩, hinner, heq⟩ := Option.map_eq_some_iff.mp h
      cases heq
      obtain ⟨body, rfl, hcs, hbody⟩ := ih hinner
      refine ⟨c :: body, rfl, by rw [List.cons_append, ← hcs], unended_cons.mpr ⟨?_, hbody⟩⟩
      intro hc more hmore
      refine hne (more ++ ['*', '/'] ++ rest) hc ?_
      rw [hcs, hmore]
      rfl
    · exact hne

theorem unended_of_blockEnd {cs : List Char} (h : blockEnd? cs = none) : Unended cs := by
  induction cs using blockEnd?.induct with
  | case1 => simp [Unended]
  | case2 cs => cases h
  | case3 c cs hne ih =>
    rw [blockEnd?] at h
    · exact unended_cons.mpr ⟨fun hc more => hne more hc, ih (Option.map_eq_none_iff.mp h)⟩
    · exact hne

/-- By induction on what is read. -/
theorem string_eq_ok {cs content rest : List Char} {width : Nat}
    (h : string cs = .ok (content, width, rest)) :
    ∃ body, cs = body ++ '"' :: rest ∧ width = body.length + 1 ∧ Unquoted body content := by
  induction cs using string.induct generalizing content width with
  | case1 => cases h
  | case2 => cases h
  | case3 cs =>
    cases h
    exact ⟨[], rfl, rfl, .nil⟩
  | case4 => cases h
  | case5 c cs ih =>
    obtain ⟨⟨inner, less, behind⟩, hinner, h⟩ := bind_ok_iff.mp h
    cases h
    obtain ⟨body, rfl, rfl, hbody⟩ := ih hinner
    exact ⟨'\\' :: c :: body, rfl, rfl, .pair hbody⟩
  | case6 c cs hline hquote hlast hslash ih =>
    rw [string] at h
    · obtain ⟨⟨inner, less, behind⟩, hinner, h⟩ := bind_ok_iff.mp h
      cases h
      obtain ⟨body, rfl, rfl, hbody⟩ := ih hinner
      exact ⟨c :: body, rfl, rfl, .plain hquote (ne_backslash hlast hslash) hline hbody⟩
    · exact hline
    · exact hquote
    · exact hlast
    · exact hslash

theorem string_eq_error {cs : List Char} {cause : Cause} (h : string cs = .error cause) :
    Unclosed cause cs := by
  induction cs using string.induct with
  | case1 =>
    cases h
    exact .ending
  | case2 more =>
    cases h
    exact .line more
  | case3 => cases h
  | case4 =>
    cases h
    exact .escape
  | case5 c cs ih => exact .pair (ih (eq_error_of_bind_pure h))
  | case6 c cs hline hquote hlast hslash ih =>
    rw [string] at h
    · exact .plain hquote (ne_backslash hlast hslash) hline (ih (eq_error_of_bind_pure h))
    · exact hline
    · exact hquote
    · exact hlast
    · exact hslash

theorem isNumeral_of_digits {sign : List Char} (hsign : sign = [] ∨ sign = ['-']) {c : Char}
    (hc : c.isDigit) (cs : List Char) :
    IsNumeral (sign ++ (c :: cs).takeWhile Char.isDigit) := by
  refine ⟨sign, _, rfl, hsign, ?_⟩
  rw [List.takeWhile_cons_of_pos hc, Decimal.isDigits, List.isEmpty_cons, List.all_cons, hc]
  simp

theorem told_number {sign : List Char} (hsign : sign = [] ∨ sign = ['-']) {c : Char}
    (hc : c.isDigit) (cs : List Char) :
    Told (sign ++ c :: cs) (number sign (c :: cs)) := by
  have hnumeral := isNumeral_of_digits hsign hc cs
  have hsplit : sign ++ c :: cs = sign ++ (c :: cs).takeWhile Char.isDigit ++
      (c :: cs).dropWhile Char.isDigit := by
    rw [List.append_assoc, List.takeWhile_append_dropWhile]
  dsimp only [number]
  split
  · next n hn =>
    obtain ⟨i, hi, hn⟩ := Option.bind_eq_some_iff.mp hn
    rw [← Number.ofInt_eq_some_iff.mp hn] at hi
    exact ⟨_, hsplit, rfl, hnumeral, hi⟩
  · next hnone =>
    refine ⟨(c :: cs).dropWhile Char.isDigit, ?_⟩
    rw [String.toList_ofList]
    refine ⟨hsplit, hnumeral, fun n hn => ?_⟩
    rw [hn, Option.bind_eq_bind, Option.bind_some, Number.ofInt_eq_some_iff.mpr rfl] at hnone
    cases hnone

theorem told_word {c : Char} {cs : List Char} (hc : c.isAlpha) :
    Told (c :: cs) (.ok (word (c :: cs))) := by
  have hword := isWord_takeWhile hc cs
  refine ⟨_, List.takeWhile_append_dropWhile.symm, rfl, ?_⟩
  have hspelled := Token.spelledBy_ofWord hword
  rw [String.toList_ofList] at hspelled
  exact hspelled

theorem eq_of_mark {cs rest : List Char} {m : Mark} {width : Nat}
    (h : mark? cs = some (m, width, rest)) :
    cs = m.text.toList ++ rest ∧ m.text.toList.length = width := by
  unfold mark? at h
  split at h
  case h_16 => cases h
  all_goals
    cases h
    exact ⟨rfl, rfl⟩

theorem exists_digit_of_minus {afterTerm : Bool} {cs : List Char}
    (h : startsNumber afterTerm ('-' :: cs) = true) : ∃ d ds, cs = d :: ds ∧ d.isDigit := by
  cases cs with
  | nil => cases h
  | cons d ds => exact ⟨d, ds, rfl, (Bool.and_eq_true_iff.mp h).2⟩

theorem told_plain {afterTerm : Bool} {c : Char} {cs : List Char} (hquote : c ≠ '"')
    (hblank : Unicode.isBlank c = false) : Told (c :: cs) (ofPlain afterTerm (c :: cs)) := by
  cases hstart : startsNumber afterTerm (c :: cs) with
  | true =>
    rw [ofPlain_number hstart]
    split
    · next hc =>
      subst hc
      obtain ⟨d, ds, rfl, hd⟩ := exists_digit_of_minus hstart
      exact told_number (.inr rfl) hd ds
    · next hc =>
      rw [startsNumber_of_ne afterTerm hc] at hstart
      exact told_number (.inl rfl) hstart cs
  | false =>
    cases hmark : mark? (c :: cs) with
    | some found =>
      obtain ⟨m, width, rest⟩ := found
      obtain ⟨heq, hwidth⟩ := eq_of_mark hmark
      simp only [ofPlain, hstart, hmark]
      exact ⟨_, heq, hwidth, rfl⟩
    | none =>
      rw [ofPlain_word hstart hmark]
      split
      · next hc => exact told_word hc
      · next hc =>
        have hne : c ≠ '-' := by
          rintro rfl
          cases hmark
        rw [startsNumber_of_ne afterTerm hne] at hstart
        refine ⟨cs, rfl, ?_, hblank, hquote, hmark⟩
        rw [Char.isAlphanum, hstart, Bool.eq_false_iff.mpr hc]
        rfl

/-- By the cases of what a text can begin with. -/
theorem told_of (afterTerm : Bool) {cs : List Char} (hne : cs ≠ []) :
    Told cs (Lead.of afterTerm cs) := by
  unfold Lead.of
  split
  · next cs =>
    refine ⟨?_, .inr ⟨_, rfl, ?_, ?_⟩⟩
    · rw [List.cons_append, List.cons_append, List.takeWhile_append_dropWhile]
    · intro hmem
      exact absurd (List.mem_takeWhile_imp hmem) (by decide)
    · have hhead := List.head?_dropWhile_not (· ≠ '\n') cs
      cases hrest : cs.dropWhile (· ≠ '\n') with
      | nil => exact .inl rfl
      | cons d more =>
        rw [hrest] at hhead
        exact .inr ⟨more, by simpa using hhead⟩
  · next cs =>
    split
    · next ended rest hend =>
      obtain ⟨body, rfl, hcs, hbody⟩ := blockEnd_eq_some hend
      exact ⟨by rw [hcs]; rfl, .inl (.block hbody .nil)⟩
    · next hend => exact ⟨cs, rfl, unended_of_blockEnd hend⟩
  · next cs =>
    cases hstring : string cs with
    | error cause => exact (string_eq_error hstring).offends
    | ok read =>
      obtain ⟨content, width, rest⟩ := read
      obtain ⟨body, rfl, rfl, hbody⟩ := string_eq_ok hstring
      refine ⟨'"' :: (body ++ ['"']), by simp, by simp, body, rfl, ?_⟩
      rw [String.toList_ofList]
      exact hbody
  · next c cs hline hblock hquote =>
    split
    · next hblank => exact ⟨rfl, .inl (.blank hblank .nil)⟩
    · next hblank => exact told_plain hquote (Bool.eq_false_iff.mpr hblank)
  · exact absurd rfl hne

end Lead

end Policy.Source
