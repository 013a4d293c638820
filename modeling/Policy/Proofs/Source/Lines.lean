import Policy.Proofs.Source.Reads
import Policy.Proofs.Source.Spelling

namespace Policy.Source

/-! ## Leads in front of a line break

What a text begins with does not depend on the lines that follow it. -/

namespace Lead

theorem takeWhile_line {p : Char → Bool} (hp : p '\n' = false) (cs more : List Char) :
    (cs ++ '\n' :: more).takeWhile p = cs.takeWhile p := by
  induction cs with
  | nil => rw [List.nil_append, List.takeWhile_cons_of_neg (by simp [hp]), List.takeWhile_nil]
  | cons c cs ih =>
    rw [List.cons_append, List.takeWhile_cons, List.takeWhile_cons, ih]

theorem dropWhile_line {p : Char → Bool} (hp : p '\n' = false) (cs more : List Char) :
    (cs ++ '\n' :: more).dropWhile p = cs.dropWhile p ++ '\n' :: more := by
  induction cs with
  | nil => rw [List.nil_append, List.dropWhile_cons_of_neg (by simp [hp]), List.dropWhile_nil]; rfl
  | cons c cs ih =>
    rw [List.cons_append, List.dropWhile_cons, List.dropWhile_cons, ih]
    split
    · rfl
    · rfl

theorem dropWhile_shorter {p : Char → Bool} {c : Char} (hc : p c = true) (cs : List Char) :
    ((c :: cs).dropWhile p).length < (c :: cs).length := by
  rw [List.dropWhile_cons_of_pos hc, List.length_cons]
  exact Nat.lt_succ_of_le (List.dropWhile_suffix p).length_le

theorem blockEnd_append {cs body rest : List Char} (h : blockEnd? cs = some (body, rest)) :
    rest.length < cs.length ∧ ∀ more, blockEnd? (cs ++ more) = some (body, rest ++ more) := by
  induction cs using blockEnd?.induct generalizing body with
  | case1 => cases h
  | case2 cs =>
    cases h
    refine ⟨?_, fun more => rfl⟩
    rw [List.length_cons, List.length_cons]
    omega
  | case3 c cs hne ih =>
    rw [blockEnd?] at h
    · obtain ⟨⟨inner, behind⟩, hinner, heq⟩ := Option.map_eq_some_iff.mp h
      cases heq
      obtain ⟨hlength, hagain⟩ := ih hinner
      refine ⟨Nat.lt_succ_of_lt hlength, fun more => ?_⟩
      cases cs with
      | nil => cases hinner
      | cons d ds =>
        have hopen : ∀ tail, c = '*' → d :: (ds ++ more) = '/' :: tail → False := by
          intro tail hc hd
          cases hd
          exact hne ds hc rfl
        rw [List.cons_append, List.cons_append, blockEnd?]
        · rw [← List.cons_append, hagain more]
          rfl
        · exact hopen
    · exact hne

/-- What stands neither alone nor in front of a character is no backslash. -/
theorem ne_backslash {c : Char} {cs : List Char} (hlast : c = '\\' → cs = [] → False)
    (hpair : ∀ d ds, c = '\\' → cs = d :: ds → False) : c ≠ '\\' := by
  intro hc
  cases cs with
  | nil => exact hlast hc rfl
  | cons d ds => exact hpair d ds hc rfl

theorem string_append {cs content rest : List Char} {width : Nat}
    (h : string cs = .ok (content, width, rest)) :
    rest.length < cs.length ∧ ∀ more, string (cs ++ more) = .ok (content, width, rest ++ more) := by
  induction cs using string.induct generalizing content width with
  | case1 => cases h
  | case2 => cases h
  | case3 cs =>
    cases h
    exact ⟨Nat.lt_succ_self _, fun more => rfl⟩
  | case4 => cases h
  | case5 c cs ih =>
    obtain ⟨⟨inner, less, behind⟩, hinner, h⟩ := bind_ok_iff.mp h
    cases h
    obtain ⟨hlength, hagain⟩ := ih hinner
    refine ⟨by simp only [List.length_cons]; omega, fun more => ?_⟩
    simp only [List.cons_append, string, hagain more, ok_bind]
    rfl
  | case6 c cs hline hquote hlast hslash ih =>
    rw [string] at h
    · obtain ⟨⟨inner, less, behind⟩, hinner, h⟩ := bind_ok_iff.mp h
      cases h
      obtain ⟨hlength, hagain⟩ := ih hinner
      have hplain := ne_backslash hlast hslash
      refine ⟨Nat.lt_succ_of_lt hlength, fun more => ?_⟩
      rw [List.cons_append, string]
      · rw [hagain more]
        rfl
      · exact hline
      · exact hquote
      · exact fun hc _ => hplain hc
      · exact fun _ _ hc _ => hplain hc
    · exact hline
    · exact hquote
    · exact hlast
    · exact hslash

theorem number_line {sign cs rest : List Char} {lead : Lead}
    (h : number sign cs = .ok (lead, rest)) :
    rest = cs.dropWhile Char.isDigit ∧ (∃ n width, lead = token (.int n) width) ∧
      ∀ more, number sign (cs ++ '\n' :: more) = .ok (lead, rest ++ '\n' :: more) := by
  have hdigit : Char.isDigit '\n' = false := by decide
  dsimp only [number] at h
  split at h
  · next n hread =>
    cases h
    refine ⟨rfl, ⟨n, _, rfl⟩, fun more => ?_⟩
    simp only [number, takeWhile_line hdigit, dropWhile_line hdigit, hread]
  · cases h

/-- A line break starts with no other character. -/
theorem line_ne {d : Char} (hd : d ≠ '\n') {cs : List Char} (h : ∀ rest, cs = d :: rest → False)
    (more rest : List Char) : cs ++ '\n' :: more = d :: rest → False := by
  intro heq
  cases cs with
  | nil =>
    cases heq
    exact hd rfl
  | cons c cs =>
    cases heq
    exact h cs rfl

theorem startsNumber_of_ne (afterTerm : Bool) {c : Char} (hc : c ≠ '-') (cs : List Char) :
    startsNumber afterTerm (c :: cs) = c.isDigit := by
  unfold startsNumber
  split
  · next heq =>
    cases heq
    exact absurd rfl hc
  · next heq =>
    cases heq
    rfl
  · next heq => cases heq

theorem startsNumber_line (afterTerm : Bool) (c : Char) (cs more : List Char) :
    startsNumber afterTerm (c :: (cs ++ '\n' :: more)) = startsNumber afterTerm (c :: cs) := by
  by_cases hc : c = '-'
  · subst hc
    cases cs with
    | nil => cases afterTerm <;> rfl
    | cons d ds => rfl
  · rw [startsNumber_of_ne afterTerm hc, startsNumber_of_ne afterTerm hc]

theorem mark_line {cs rest : List Char} {m : Mark} {width : Nat}
    (h : mark? cs = some (m, width, rest)) :
    rest.length < cs.length ∧
      ∀ more, mark? (cs ++ '\n' :: more) = some (m, width, rest ++ '\n' :: more) := by
  unfold mark? at h
  split at h
  case h_5 _ hne | h_6 _ hne =>
    cases h
    refine ⟨Nat.lt_succ_self _, fun more => ?_⟩
    rw [List.cons_append, mark?]
    exact line_ne (by decide) hne more
  case h_16 => cases h
  all_goals
    cases h
    exact ⟨by simp only [List.length_cons]; omega, fun more => rfl⟩

theorem ofWord_ne_eof (word : String) : Token.ofWord word ≠ .eof := by
  unfold Token.ofWord
  split
  · exact Token.noConfusion
  · exact Token.noConfusion

theorem ofPlain_number {afterTerm : Bool} {c : Char} {cs : List Char}
    (h : startsNumber afterTerm (c :: cs) = true) :
    ofPlain afterTerm (c :: cs) =
      if c = '-' then number ['-'] cs else number [] (c :: cs) := by
  simp only [ofPlain, h, if_true]
  split
  · next heq =>
    cases heq
    rfl
  · next hne => rw [if_neg fun hc => hne cs (by rw [hc])]

theorem ofPlain_word {afterTerm : Bool} {c : Char} {cs : List Char}
    (hstart : startsNumber afterTerm (c :: cs) = false) (hmark : mark? (c :: cs) = none) :
    ofPlain afterTerm (c :: cs) =
      if c.isAlpha then .ok (word (c :: cs)) else .error (.strayCharacter c) := by
  simp only [ofPlain, hstart, Bool.false_eq_true, if_false, hmark]

/-- What stands in front of a line break is split alike without it. -/
structure Split (split : List Char → Except Cause (Lead × List Char)) (cs : List Char) (lead : Lead)
    (rest : List Char) : Prop where
  shorter : rest.length < cs.length
  visible : ∀ width, lead ≠ token .eof width
  again : ∀ more, split (cs ++ '\n' :: more) = .ok (lead, rest ++ '\n' :: more)

theorem split_number {afterTerm : Bool} {c : Char} {cs rest : List Char} {lead : Lead}
    (hstart : startsNumber afterTerm (c :: cs) = true)
    (h : ofPlain afterTerm (c :: cs) = .ok (lead, rest)) :
    Split (ofPlain afterTerm) (c :: cs) lead rest := by
  have hagain (more : List Char) : startsNumber afterTerm (c :: (cs ++ '\n' :: more)) = true := by
    rw [startsNumber_line, hstart]
  rw [ofPlain_number hstart] at h
  split at h
  · next hc =>
    obtain ⟨rfl, ⟨n, width, rfl⟩, hline⟩ := number_line h
    refine ⟨?_, fun width => by simp, fun more => ?_⟩
    · exact Nat.lt_succ_of_le (List.dropWhile_suffix _).length_le
    · rw [List.cons_append, ofPlain_number (hagain more), if_pos hc]
      exact hline more
  · next hc =>
    obtain ⟨rfl, ⟨n, width, rfl⟩, hline⟩ := number_line h
    rw [startsNumber_of_ne afterTerm hc] at hstart
    refine ⟨dropWhile_shorter hstart cs, fun width => by simp, fun more => ?_⟩
    rw [List.cons_append, ofPlain_number (hagain more), if_neg hc]
    exact hline more

theorem split_plain {afterTerm : Bool} {c : Char} {cs rest : List Char} {lead : Lead}
    (h : ofPlain afterTerm (c :: cs) = .ok (lead, rest)) :
    Split (ofPlain afterTerm) (c :: cs) lead rest := by
  cases hstart : startsNumber afterTerm (c :: cs) with
  | true => exact split_number hstart h
  | false =>
    have hagain (more : List Char) :
        startsNumber afterTerm (c :: (cs ++ '\n' :: more)) = false := by
      rw [startsNumber_line, hstart]
    cases hmark : mark? (c :: cs) with
    | some found =>
      obtain ⟨m, width, behind⟩ := found
      obtain ⟨hlength, hline⟩ := mark_line hmark
      simp only [ofPlain, hstart, hmark] at h
      cases h
      refine ⟨hlength, fun width => by simp, fun more => ?_⟩
      have hmore := hline more
      rw [List.cons_append] at hmore ⊢
      simp only [ofPlain, hagain more, hmore]
      rfl
    | none =>
      rw [ofPlain_word hstart hmark] at h
      split at h
      · next hc =>
        have hword : isWordChar c = true := by simp [isWordChar, Char.isAlphanum, hc]
        have hbreak : isWordChar '\n' = false := by decide
        cases h
        refine ⟨dropWhile_shorter hword cs, fun width => ?_, fun more => ?_⟩
        · simp only [ne_eq, token.injEq, not_and]
          exact fun heq => absurd heq (ofWord_ne_eof _)
        · rw [List.cons_append, ofPlain_word (hagain more) (mark_of_isAlpha hc), if_pos hc,
            ← List.cons_append]
          simp only [word, takeWhile_line hbreak, dropWhile_line hbreak]
      · cases h

/-- By the cases of what a text can begin with. -/
theorem split_of {afterTerm : Bool} {cs rest : List Char} {lead : Lead} (hcs : cs ≠ [])
    (h : Lead.of afterTerm cs = .ok (lead, rest)) : Split (Lead.of afterTerm) cs lead rest := by
  unfold Lead.of at h
  split at h
  · next cs =>
    cases h
    refine ⟨?_, fun width => Lead.noConfusion, fun more => ?_⟩
    · have hle := (List.dropWhile_suffix (l := cs) (· ≠ '\n')).length_le
      simp only [List.length_cons]
      omega
    · have hbreak : decide ('\n' ≠ '\n') = false := by decide
      rw [List.cons_append, List.cons_append, of_lineComment, takeWhile_line hbreak,
        dropWhile_line hbreak]
  · split at h
    · next cs body behind hend =>
      cases h
      obtain ⟨hlength, hagain⟩ := blockEnd_append hend
      refine ⟨?_, fun width => Lead.noConfusion, fun more => ?_⟩
      · simp only [List.length_cons]
        omega
      · exact of_blockComment (hagain _) afterTerm
    · cases h
  · obtain ⟨⟨content, width, behind⟩, hstring, h⟩ := bind_ok_iff.mp h
    cases h
    obtain ⟨hlength, hagain⟩ := string_append hstring
    refine ⟨Nat.lt_succ_of_lt hlength, fun width => by simp, fun more => ?_⟩
    rw [List.cons_append]
    exact of_quote (hagain _)
  · next c cs hline hblock hquote =>
    have hother (more : List Char) : Lead.of afterTerm (c :: cs ++ '\n' :: more) =
        if Unicode.isBlank c then .ok (layout [c], cs ++ '\n' :: more)
        else ofPlain afterTerm (c :: cs ++ '\n' :: more) := by
      refine of_else (fun tail hc => ?_) (fun tail hc => ?_) hquote
      · exact line_ne (by decide) (fun rest => hline rest hc) more tail
      · exact line_ne (by decide) (fun rest => hblock rest hc) more tail
    split at h
    · next hblank =>
      cases h
      refine ⟨Nat.lt_succ_self _, fun width => Lead.noConfusion, fun more => ?_⟩
      rw [hother, if_pos hblank]
    · next hblank =>
      have hsplit := split_plain h
      refine ⟨hsplit.shorter, hsplit.visible, fun more => ?_⟩
      rw [hother, if_neg hblank]
      exact hsplit.again more
  · exact absurd rfl hcs

theorem startsNumber_afterTerm (afterTerm : Bool) {cs : List Char}
    (h : startsNumber false cs = false) : startsNumber afterTerm cs = false := by
  unfold startsNumber at h ⊢
  split at h
  · simp only [Bool.not_false, Bool.true_and] at h
    simp only [h, Bool.and_false]
  · exact h
  · rfl

theorem plain_afterTerm (afterTerm : Bool) {c : Char} {cs rest : List Char} {lead : Lead}
    (h : ofPlain false (c :: cs) = .ok (lead, rest))
    (hint : ∀ n width, lead ≠ token (.int n) width) :
    ofPlain afterTerm (c :: cs) = .ok (lead, rest) := by
  cases hstart : startsNumber false (c :: cs) with
  | true =>
    rw [ofPlain_number hstart] at h
    split at h
    · obtain ⟨-, ⟨n, width, rfl⟩, -⟩ := number_line h
      exact absurd rfl (hint n width)
    · obtain ⟨-, ⟨n, width, rfl⟩, -⟩ := number_line h
      exact absurd rfl (hint n width)
  | false =>
    have hagain := startsNumber_afterTerm afterTerm hstart
    simp only [ofPlain, hstart] at h
    simp only [ofPlain, hagain]
    exact h

/-- A lead that is no number is the same one behind a term. -/
theorem of_afterTerm (afterTerm : Bool) {cs rest : List Char} {lead : Lead}
    (h : Lead.of false cs = .ok (lead, rest)) (hint : ∀ n width, lead ≠ token (.int n) width) :
    Lead.of afterTerm cs = .ok (lead, rest) := by
  unfold Lead.of at h ⊢
  split at h
  · exact h
  · exact h
  · exact h
  · split at h
    · next hblank =>
      rw [if_pos hblank]
      exact h
    · next hblank =>
      rw [if_neg hblank]
      exact plain_afterTerm afterTerm h hint
  · exact h

end Lead

/-! ## Texts of several lines -/

/-- Whether a term ends behind the tokens. -/
def termEnds (afterTerm : Bool) (ts : List Token) : Bool :=
  ts.foldl (fun _ t => t.endsTerm) afterTerm

/-- What a text is scanned as, by itself and in front of other lines. By induction on the room: each
lead is the same one in front of a line break. -/
theorem exists_scans {room : Nat} {p : Position} {afterTerm : Bool} {cs : List Char}
    {located : List Located} (hroom : cs.length ≤ room)
    (h : scanFrom room p afterTerm cs = .ok located) :
    ∃ ts, located.map (·.token) = ts ++ [.eof] ∧ .eof ∉ ts ∧ Scans afterTerm cs (ts ++ [.eof]) ∧
      ∀ more us, Scans (termEnds afterTerm ts) more us →
        Scans afterTerm (cs ++ '\n' :: more) (ts ++ us) := by
  induction room generalizing p afterTerm cs located with
  | zero =>
    cases List.length_eq_zero_iff.mp (Nat.le_zero.mp hroom)
    cases h
    exact ⟨[], rfl, List.not_mem_nil, scans_nil afterTerm, fun more us hmore => scans_line hmore⟩
  | succ room ih =>
    cases cs with
    | nil =>
      cases h
      exact ⟨[], rfl, List.not_mem_nil, scans_nil afterTerm, fun more us hmore => scans_line hmore⟩
    | cons c cs =>
      rw [scanFrom] at h
      · split at h
        · cases h
        · next skipped rest hlead =>
          have hsplit := Lead.split_of (List.cons_ne_nil _ _) hlead
          have hless : rest.length ≤ room := by
            have hshorter := hsplit.shorter
            omega
          obtain ⟨ts, hmap, hsolid, hscans, hlines⟩ := ih hless h
          refine ⟨ts, hmap, hsolid, scans_layout hlead hsplit.shorter hscans, fun more us hmore => ?_⟩
          refine scans_layout (hsplit.again more) ?_ (hlines more us hmore)
          simp only [List.length_append]
          exact Nat.add_lt_add_right hsplit.shorter _
        · next t width rest hlead =>
          have hsplit := Lead.split_of (List.cons_ne_nil _ _) hlead
          have hless : rest.length ≤ room := by
            have hshorter := hsplit.shorter
            omega
          obtain ⟨tokens, hscan, h⟩ := bind_ok_iff.mp h
          cases h
          obtain ⟨ts, hmap, hsolid, hscans, hlines⟩ := ih hless hscan
          have ht : t ≠ .eof := by
            rintro rfl
            exact hsplit.visible width rfl
          refine ⟨t :: ts, by rw [List.map_cons, hmap]; rfl, by simp [ht.symm, hsolid],
            scans_token hlead hsplit.shorter hscans, fun more us hmore => ?_⟩
          refine scans_token (hsplit.again more) ?_ (hlines more us hmore)
          simp only [List.length_append]
          exact Nat.add_lt_add_right hsplit.shorter _
      · exact List.cons_ne_nil _ _

/-- Whether a term ended before only matters for a number at the front. -/
theorem scanFrom_afterTerm (afterTerm : Bool) {room : Nat} {p : Position} {cs : List Char}
    {located : List Located} (h : scanFrom room p false cs = .ok located)
    (hint : ∀ n, peek located ≠ .int n) : scanFrom room p afterTerm cs = .ok located := by
  induction room generalizing p cs with
  | zero => exact h
  | succ room ih =>
    cases cs with
    | nil => exact h
    | cons c cs =>
      rw [scanFrom] at h ⊢
      · split at h
        · cases h
        · next skipped rest hlead =>
          rw [Lead.of_afterTerm afterTerm hlead fun n width => Lead.noConfusion]
          exact ih h
        · next t width rest hlead =>
          obtain ⟨tokens, hscan, hlocated⟩ := bind_ok_iff.mp h
          cases hlocated
          have hlead : Lead.of afterTerm (c :: cs) = .ok (.token t width, rest) := by
            refine Lead.of_afterTerm afterTerm hlead fun n w heq => ?_
            cases heq
            exact hint n rfl
          rw [hlead]
          exact h
      · exact List.cons_ne_nil _ _
      · exact List.cons_ne_nil _ _

/-- The tokens of a text up to its end. -/
def tokensOf (text : String) : List Token :=
  match scan text with
  | .ok located => (located.map (·.token)).dropLast
  | .error _ => []

theorem exists_scan_of_tokensOf {text : String} {ts : List Token} (h : tokensOf text = ts)
    (hne : ts ≠ []) : ∃ located, scan text = .ok located := by
  unfold tokensOf at h
  split at h
  · next located hscan => exact ⟨located, hscan⟩
  · exact absurd h.symm hne

theorem map_of_scan {text : String} {located : List Located} (h : scan text = .ok located) :
    located.map (·.token) = tokensOf text ++ [.eof] ∧ .eof ∉ tokensOf text := by
  obtain ⟨ts, hmap, hsolid, -, -⟩ := exists_scans (Nat.le_refl _) h
  have hts : tokensOf text = ts := by
    simp only [tokensOf, h, hmap, List.dropLast_concat]
  rw [hts]
  exact ⟨hmap, hsolid⟩

/-- A text that is scanned by itself, at the end or in front of other lines. -/
theorem scans_text {text : String} {located : List Located} (h : scan text = .ok located)
    {afterTerm : Bool} (hint : afterTerm = true → ∀ n, next (tokensOf text) ≠ .int n) :
    Scans afterTerm text.toList (tokensOf text ++ [.eof]) ∧
      ∀ more us, Scans (termEnds afterTerm (tokensOf text)) more us →
        Scans afterTerm (text.toList ++ '\n' :: more) (tokensOf text ++ us) := by
  obtain ⟨hmap, -⟩ := map_of_scan h
  have hscan : scanFrom text.toList.length .start afterTerm text.toList = .ok located := by
    cases afterTerm with
    | false => exact h
    | true =>
      refine scanFrom_afterTerm true h fun n hpeek => ?_
      rw [peek_eq_next hmap] at hpeek
      cases hts : tokensOf text with
      | nil =>
        rw [hts] at hpeek
        cases hpeek
      | cons t ts =>
        rw [hts] at hint hpeek
        exact hint rfl n hpeek
  obtain ⟨ts, hts, -, hscans⟩ := exists_scans (Nat.le_refl _) hscan
  rw [hmap] at hts
  rw [List.append_cancel_right hts]
  exact hscans

/-- Every text is scanned, and none of them starts with a number where a term ended before it. -/
def Lines : (afterTerm : Bool) → List String → Prop
  | _, [] => True
  | afterTerm, text :: texts =>
    (∃ located, scan text = .ok located) ∧
      (afterTerm = true → ∀ n, next (tokensOf text) ≠ .int n) ∧
      Lines (termEnds afterTerm (tokensOf text)) texts

/-- Lines have the tokens of each of them, one line after the other. -/
theorem scans_lines {texts : List String} (hne : texts ≠ []) {afterTerm : Bool}
    (h : Lines afterTerm texts) :
    Scans afterTerm ("\n".intercalate texts).toList (texts.flatMap tokensOf ++ [.eof]) := by
  induction texts generalizing afterTerm with
  | nil => exact absurd rfl hne
  | cons text texts ih =>
    obtain ⟨⟨located, hscan⟩, hint, hrest⟩ := h
    obtain ⟨hlast, hline⟩ := scans_text hscan hint
    cases texts with
    | nil =>
      rw [String.intercalate_singleton, List.flatMap_cons, List.flatMap_nil, List.append_nil]
      exact hlast
    | cons next texts =>
      have hmore := ih (List.cons_ne_nil _ _) hrest
      have hbreak : ("\n" : String).toList = ['\n'] := rfl
      rw [String.intercalate_cons_cons, String.toList_append, String.toList_append, hbreak,
        List.append_assoc, List.flatMap_cons, List.append_assoc]
      exact hline _ _ hmore

theorem scan_lines {texts : List String} (hne : texts ≠ []) (h : Lines false texts) :
    ∃ located, scan ("\n".intercalate texts) = .ok located ∧
      located.map (·.token) = texts.flatMap tokensOf ++ [.eof] :=
  scans_lines hne h _ .start (Nat.le_refl _)

theorem tokensOf_lines {texts : List String} (hne : texts ≠ []) (h : Lines false texts) :
    tokensOf ("\n".intercalate texts) = texts.flatMap tokensOf := by
  obtain ⟨located, hscan, hl⟩ := scan_lines hne h
  rw [(map_of_scan hscan).1] at hl
  exact List.append_cancel_right hl

end Policy.Source
