import Policy.Proofs.Source.Layout
import Policy.Proofs.Source.Printing

namespace Policy

namespace Source

/-! ## Words, strings and numbers in front of a blank -/

namespace Lead

theorem ne_of_isAlpha {c d : Char} (hc : c.isAlpha) (hd : d.isAlpha = false) : c ≠ d := by
  rintro rfl
  rw [hc] at hd
  cases hd

theorem startsNumber_of_isAlpha {afterTerm : Bool} {c : Char} {cs : List Char}
    (hc : c.isAlpha) : startsNumber afterTerm (c :: cs) = false := by
  unfold startsNumber
  split
  · next heq =>
    cases heq
    exact absurd hc (by decide)
  · next heq =>
    cases heq
    cases hd : c.isDigit with
    | false => rfl
    | true =>
      have halpha := isAlpha_cases hc
      have hdigit := isDigit_cases hd
      omega
  · rfl

theorem mark_of_isAlpha {c : Char} {cs : List Char} (hc : c.isAlpha) :
    mark? (c :: cs) = none := by
  unfold mark?
  split <;> first | rfl | (next heq => cases heq; exact absurd hc (by decide))

theorem of_word (afterTerm : Bool) {c : Char} {cs rest : List Char} (hc : c.isAlpha)
    (hcs : ∀ x ∈ cs, isWordChar x) (hrest : Clear rest) :
    Lead.of afterTerm (c :: (cs ++ rest)) =
      .ok (token (.ofWord (String.ofList (c :: cs))) (c :: cs).length, rest) := by
  have hrange := isAlpha_cases hc
  have hword : ∀ x ∈ c :: cs, isWordChar x := by
    intro x hx
    rcases List.mem_cons.mp hx with rfl | hx
    · simp [isWordChar, Char.isAlphanum, hc]
    · exact hcs x hx
  rw [of_plain (ne_of_isAlpha hc (by decide)) (ne_of_isAlpha hc (by decide))
    (isBlank_of_visible (by omega) (by omega))]
  simp only [ofPlain, startsNumber_of_isAlpha hc, Bool.false_eq_true, if_false,
    mark_of_isAlpha hc, hc, if_true, word]
  rw [← List.cons_append, takeWhile_clear hword isWordChar_of_isBlank hrest,
    dropWhile_clear hword isWordChar_of_isBlank hrest]

/-- A word that stands for a token. -/
theorem of_isWord (afterTerm : Bool) {text : String} {rest : List Char} (h : isWord text)
    (hrest : Clear rest) :
    ∃ width, Lead.of afterTerm (text.toList ++ rest) =
      .ok (token (.ofWord text) width, rest) := by
  unfold isWord at h
  split at h
  · cases h
  · next c cs htext =>
    simp only [Bool.and_eq_true, List.all_eq_true] at h
    have hw := of_word afterTerm h.1 h.2 hrest
    rw [← htext, String.ofList_toList] at hw
    rw [htext]
    exact ⟨_, htext ▸ hw⟩

theorem string_quoted (cs rest : List Char) :
    ∃ width, string (quoted cs ++ '"' :: rest) = .ok (cs, width, rest) := by
  induction cs with
  | nil => exact ⟨1, by simp [quoted, string]⟩
  | cons c cs ih =>
    obtain ⟨width, hw⟩ := ih
    unfold quoted
    split
    · next heq => cases heq
    · next heq =>
      cases heq
      refine ⟨width + 2, ?_⟩
      simp only [List.cons_append, string, hw, ok_bind, escape]
      rfl
    · next heq =>
      cases heq
      refine ⟨width + 2, ?_⟩
      simp only [List.cons_append, string, hw, ok_bind, escape]
      rfl
    · next heq =>
      cases heq
      refine ⟨width + 2, ?_⟩
      simp only [List.cons_append, string, hw, ok_bind, escape]
      rfl
    · next hquote hslash hline heq =>
      cases heq
      refine ⟨width + 1, ?_⟩
      rw [List.cons_append, string]
      · rw [hw]
        rfl
      · exact hline
      · exact hquote
      · exact fun h _ => hslash h
      · exact fun _ _ h _ => hslash h

theorem of_quote {afterTerm : Bool} {cs content rest : List Char} {width : Nat}
    (h : string cs = .ok (content, width, rest)) :
    Lead.of afterTerm ('"' :: cs) =
      .ok (token (.str (String.ofList content)) (width + 1), rest) := by
  show (string cs >>= fun read =>
    pure (token (.str (String.ofList read.1)) (read.2.1 + 1), read.2.2)) = _
  rw [h]
  rfl

theorem ofPlain_digit {afterTerm : Bool} {c : Char} {cs : List Char} (hc : c.isDigit) :
    ofPlain afterTerm (c :: cs) = number [] (c :: cs) := by
  have hne : c ≠ '-' := by
    rintro rfl
    exact absurd hc (by decide)
  have hstart : startsNumber afterTerm (c :: cs) = true := by
    unfold startsNumber
    split
    · next heq =>
      cases heq
      exact absurd rfl hne
    · next heq =>
      cases heq
      exact hc
    · next heq => cases heq
  simp only [ofPlain, hstart, if_true]
  split
  · next heq =>
    cases heq
    exact absurd rfl hne
  · rfl

theorem ofPlain_minus {c : Char} {cs : List Char} (hc : c.isDigit) :
    ofPlain false ('-' :: c :: cs) = number ['-'] (c :: cs) := by
  simp [ofPlain, startsNumber, hc]

theorem number_digits (sign : List Char) {n : Number} {cs rest : List Char}
    (hcs : ∀ c ∈ cs, c.isDigit) (hwrite : sign ++ cs = Decimal.write n.val) (hrest : Clear rest) :
    ∃ width, number sign (cs ++ rest) = .ok (token (.int n) width, rest) := by
  have hread : Decimal.read? (Decimal.write n.val) >>= Number.ofInt? = some n := by
    rw [Decimal.read_write]
    exact Number.ofInt_eq_some_iff.mpr rfl
  refine ⟨(sign ++ cs).length, ?_⟩
  simp only [number, takeWhile_clear hcs isDigit_of_isBlank hrest,
    dropWhile_clear hcs isDigit_of_isBlank hrest, hwrite, hread]

theorem exists_toDigits (n : Nat) :
    ∃ c cs, Nat.toDigits 10 n = c :: cs ∧ ∀ x ∈ c :: cs, x.isDigit := by
  have hdigits := Decimal.isDigits_toDigits n
  cases hds : Nat.toDigits 10 n with
  | nil =>
    rw [hds] at hdigits
    cases hdigits
  | cons c cs =>
    rw [hds] at hdigits
    simp only [Decimal.isDigits, Bool.and_eq_true, List.all_eq_true] at hdigits
    exact ⟨c, cs, rfl, hdigits.2⟩

/-- A number is one token, a negative one unless a term ended in front of it. -/
theorem of_int {afterTerm : Bool} {n : Number} {rest : List Char}
    (h : afterTerm = true → 0 ≤ n.val) (hrest : Clear rest) :
    ∃ width, Lead.of afterTerm (Decimal.write n.val ++ rest) =
      .ok (token (.int n) width, rest) := by
  cases hn : n.val with
  | ofNat k =>
    obtain ⟨c, cs, hds, hdigits⟩ := exists_toDigits k
    have hwrite : [] ++ (c :: cs) = Decimal.write n.val := by rw [hn, Decimal.write, hds]; rfl
    obtain ⟨width, hw⟩ := number_digits [] hdigits hwrite hrest
    have hc := hdigits c (List.mem_cons_self)
    have hrange := isDigit_cases hc
    refine ⟨width, ?_⟩
    rw [Decimal.write, hds, List.cons_append, of_plain, ofPlain_digit hc]
    · exact hw
    · rintro rfl
      exact absurd hc (by decide)
    · rintro rfl
      exact absurd hc (by decide)
    · exact isBlank_of_visible (by omega) (by omega)
  | negSucc k =>
    obtain ⟨c, cs, hds, hdigits⟩ := exists_toDigits (k + 1)
    have hwrite : ['-'] ++ (c :: cs) = Decimal.write n.val := by rw [hn, Decimal.write, hds]; rfl
    obtain ⟨width, hw⟩ := number_digits ['-'] hdigits hwrite hrest
    have hc := hdigits c (List.mem_cons_self)
    have hfresh : afterTerm = false := by
      cases afterTerm with
      | false => rfl
      | true =>
        have hpos := h rfl
        rw [hn] at hpos
        exact absurd hpos (by omega)
    refine ⟨width, ?_⟩
    rw [Decimal.write, hds, List.cons_append, of_plain (by decide) (by decide) (by decide), hfresh,
      List.cons_append, ofPlain_minus hc]
    exact hw

/-- In front of a blank, a mark is neither a part of a longer one nor of a comment or a number. -/
theorem of_mark (afterTerm : Bool) (m : Mark) {rest : List Char} (hrest : Clear rest) :
    ∃ width, Lead.of afterTerm (m.text.toList ++ rest) = .ok (token (.mark m) width, rest) := by
  cases rest with
  | nil => cases m <;> cases afterTerm <;> exact ⟨_, rfl⟩
  | cons c rest =>
    have hc := hrest c rfl
    have heq : c ≠ '=' := ne_of_isBlank hc (by decide)
    have hslash : c ≠ '/' := ne_of_isBlank hc (by decide)
    have hstar : c ≠ '*' := ne_of_isBlank hc (by decide)
    have hdigit := isDigit_of_isBlank c hc
    cases m with
    | lt =>
      refine ⟨1, ?_⟩
      show Lead.of afterTerm ('<' :: c :: rest) = _
      rw [of_plain (by decide) (by decide) (by decide)]
      simp [ofPlain, startsNumber, mark?, heq]
    | gt =>
      refine ⟨1, ?_⟩
      show Lead.of afterTerm ('>' :: c :: rest) = _
      rw [of_plain (by decide) (by decide) (by decide)]
      simp [ofPlain, startsNumber, mark?, heq]
    | minus =>
      refine ⟨1, ?_⟩
      show Lead.of afterTerm ('-' :: c :: rest) = _
      rw [of_plain (by decide) (by decide) (by decide)]
      simp [ofPlain, startsNumber, mark?, hdigit]
    | slash =>
      refine ⟨1, ?_⟩
      have hblank : Unicode.isBlank '/' = false := by decide
      show Lead.of afterTerm ('/' :: c :: rest) = _
      rw [of_else (by simp [hslash]) (by simp [hstar]) (by decide)]
      simp [ofPlain, startsNumber, mark?, hblank]
    | _ => cases afterTerm <;> exact ⟨_, rfl⟩

end Lead

/-! ## Token lists -/

/-- Tokens with a spelling that is read as the token again. -/
def Token.Spellable (afterTerm : Bool) : Token → Prop
  | .name text => isIdentifier text
  | .int n => afterTerm = true → 0 ≤ n.val
  | .eof => False
  | .keyword _ | .str _ | .mark _ => True

def Spellable (afterTerm : Bool) : List Token → Prop
  | [] => True
  | t :: ts => t.Spellable afterTerm ∧ Spellable t.endsTerm ts

theorem Keyword.isWord_text (k : Keyword) : isWord k.text := by
  cases k with
  | method m => cases m <;> decide
  | _ => decide

theorem Lead.of_spelling {t : Token} {afterTerm : Bool} (h : t.Spellable afterTerm)
    {rest : List Char} (hrest : Clear rest) :
    ∃ width, Lead.of afterTerm (t.spelling ++ rest) = .ok (token t width, rest) := by
  cases t with
  | keyword k =>
    obtain ⟨width, hw⟩ := of_isWord afterTerm k.isWord_text hrest
    refine ⟨width, ?_⟩
    rw [Token.ofWord, Keyword.ofText_text] at hw
    exact hw
  | name text =>
    simp only [Token.Spellable, isIdentifier, Bool.and_eq_true, Option.isNone_iff_eq_none] at h
    obtain ⟨width, hw⟩ := of_isWord afterTerm h.1 hrest
    refine ⟨width, ?_⟩
    rw [Token.ofWord, h.2] at hw
    exact hw
  | str text =>
    obtain ⟨width, hw⟩ := string_quoted text.toList rest
    refine ⟨width + 1, ?_⟩
    rw [Token.spelling, List.cons_append, List.append_assoc, List.singleton_append, of_quote hw,
      String.ofList_toList]
  | int n => exact of_int h hrest
  | mark m => exact of_mark afterTerm m hrest
  | eof => exact h.elim

theorem Token.spelling_ne_nil {t : Token} {afterTerm : Bool} (h : t.Spellable afterTerm) :
    t.spelling ≠ [] := by
  intro hnil
  obtain ⟨width, hw⟩ := Lead.of_spelling h clear_nil
  rw [hnil] at hw
  cases hw

/-! ## Tokens with layout between them -/

/-- Layout that begins with white space. -/
structure Separator (gap : List Char) : Prop where
  layout : Layout gap
  clear : Clear gap
  visible : gap ≠ []

/-- Each token in its usual spelling, with the layout that stands behind it. -/
def laidOut (spaced : List (Token × List Char)) : List Char :=
  spaced.flatMap fun (t, gap) => t.spelling ++ gap

/-- There are separators between the tokens, and one or nothing at all behind the last one. -/
def Separated : List (Token × List Char) → Prop
  | [] => True
  | (_, gap) :: spaced => (Separator gap ∨ gap = [] ∧ spaced = []) ∧ Separated spaced

/-- Where each token is cut off, whatever its layout is. By induction on the tokens. -/
theorem scans_laidOut {spaced : List (Token × List Char)} (hgaps : Separated spaced)
    {afterTerm : Bool} (hts : Spellable afterTerm (spaced.map Prod.fst)) :
    Scans afterTerm (laidOut spaced) (spaced.map Prod.fst ++ [.eof]) := by
  induction spaced generalizing afterTerm with
  | nil => exact scans_nil afterTerm
  | cons first spaced ih =>
    obtain ⟨t, gap⟩ := first
    obtain ⟨hgap, hgaps⟩ := hgaps
    obtain ⟨ht, hts⟩ := hts
    have hbehind : Layout gap ∧ Clear (gap ++ laidOut spaced) := by
      rcases hgap with ⟨hlayout, hclear, hne⟩ | ⟨rfl, rfl⟩
      · obtain ⟨c, cs, rfl⟩ := List.exists_cons_of_ne_nil hne
        exact ⟨hlayout, clear_cons (hclear c rfl) _⟩
      · exact ⟨.nil, clear_nil⟩
    obtain ⟨width, hw⟩ := Lead.of_spelling ht hbehind.2
    have hpos : 0 < t.spelling.length := List.length_pos_iff.mpr (Token.spelling_ne_nil ht)
    have hsplit : laidOut ((t, gap) :: spaced) = t.spelling ++ (gap ++ laidOut spaced) := by
      rw [laidOut, List.flatMap_cons, List.append_assoc]
      rfl
    rw [hsplit]
    refine scans_token hw ?_ (hbehind.1.scans (ih hgaps hts))
    simp only [List.length_append]
    omega

/-- Scanning undoes spelling, with any layout in front of the tokens and between them. -/
theorem scan_laidOut {front : List Char} {spaced : List (Token × List Char)} (hfront : Layout front)
    (hgaps : Separated spaced) (hts : Spellable false (spaced.map Prod.fst)) :
    ∃ located, scan (String.ofList (front ++ laidOut spaced)) = .ok located ∧
      located.map (·.token) = spaced.map Prod.fst ++ [.eof] := by
  have hscans := scans_laidOut hgaps hts
  exact (hfront.scans hscans).scan

/-- A comment, a sign that belongs to a number and one that does not, and a string that looks like
the start of a comment and ends the text. -/
def remarked : List (Token × List Char) :=
  [(.name "x", " /* - */".toList), (.mark .eq, ['\u00a0']),
    (.int ⟨-9223372036854775807, by decide⟩, "\n// \"\n".toList), (.mark .minus, [' ']),
    (.int ⟨9223372036854775807, by decide⟩, [' ']), (.mark .slash, ['\t']), (.str "\"/*\n", [])]

theorem scan_remarked :
    Layout "// x\n".toList ∧ Separated remarked ∧ Spellable false (remarked.map Prod.fst) ∧
      ∃ located, scan (String.ofList ("// x\n".toList ++ laidOut remarked)) = .ok located ∧
        located.map (·.token) = remarked.map Prod.fst ++ [.eof] := by
  have hfront : Layout "// x\n".toList := @Layout.line " x".toList [] (by decide) .nil
  have hblock : Layout " /* - */".toList :=
    .blank (by decide) (@Layout.block " - ".toList [] (by unfold Unended; decide) .nil)
  have hline : Layout "\n// \"\n".toList :=
    .blank (by decide) (@Layout.line " \"".toList [] (by decide) .nil)
  have hgap (c : Char) (hc : Unicode.isBlank c) : Separator [c] :=
    ⟨.blank hc .nil, clear_cons hc [], List.cons_ne_nil _ _⟩
  have hgaps : Separated remarked :=
    ⟨.inl ⟨hblock, clear_cons (by decide) _, List.cons_ne_nil _ _⟩, .inl (hgap _ (by decide)),
      .inl ⟨hline, clear_cons (by decide) _, List.cons_ne_nil _ _⟩, .inl (hgap _ (by decide)),
      .inl (hgap _ (by decide)), .inl (hgap _ (by decide)), .inr ⟨rfl, rfl⟩, trivial⟩
  have hts : Spellable false (remarked.map Prod.fst) :=
    ⟨(by decide : isIdentifier "x"), trivial, nofun, trivial, nofun, trivial, trivial, trivial⟩
  exact ⟨hfront, hgaps, hts, scan_laidOut hfront hgaps hts⟩

theorem spelling_eq_laidOut (ts : List Token) :
    spelling ts = laidOut (ts.map fun t => (t, [' '])) := by
  rw [laidOut, List.flatMap_map, spelling]

theorem separated_by_blanks (ts : List Token) : Separated (ts.map fun t => (t, [' '])) := by
  induction ts with
  | nil => trivial
  | cons t ts ih =>
    exact ⟨.inl ⟨.blank (by decide) .nil, clear_cons (by decide) [], List.cons_ne_nil _ _⟩, ih⟩

theorem scan_spelling {ts : List Token} (h : Spellable false ts) :
    ∃ located, scan (String.ofList (spelling ts)) = .ok located ∧
      located.map (·.token) = ts ++ [.eof] := by
  have hmap : (ts.map fun t => (t, [' '])).map Prod.fst = ts := by
    rw [List.map_map]
    exact List.map_id ts
  have hscans := scans_laidOut (separated_by_blanks ts) (hmap.symm ▸ h)
  rw [hmap, ← spelling_eq_laidOut] at hscans
  exact hscans.scan

/-! ## Printed policies

A negative number is only printed behind a parenthesis, where no term has ended. -/

/-- Tokens that can be spelled wherever they stand. -/
def Free (ts : List Token) : Prop := ∀ afterTerm, Spellable afterTerm ts

theorem Free.nil : Free [] := fun _ => trivial

theorem Free.cons {t : Token} {ts : List Token} (ht : ∀ afterTerm, t.Spellable afterTerm)
    (hts : Spellable t.endsTerm ts) : Free (t :: ts) :=
  fun afterTerm => ⟨ht afterTerm, hts⟩

theorem Spellable.append {afterTerm : Bool} {ts us : List Token} (hts : Spellable afterTerm ts)
    (hus : Free us) : Spellable afterTerm (ts ++ us) := by
  induction ts generalizing afterTerm with
  | nil => exact hus afterTerm
  | cons t ts ih => exact ⟨hts.1, ih hts.2⟩

theorem Free.append {ts us : List Token} (hts : Free ts) (hus : Free us) : Free (ts ++ us) :=
  fun afterTerm => (hts afterTerm).append hus

theorem Free.keyword (k : Keyword) {ts : List Token} (h : Free ts) : Free (.keyword k :: ts) :=
  Free.cons (fun _ => trivial) (h _)

theorem Free.mark (m : Mark) {ts : List Token} (h : Free ts) : Free (.mark m :: ts) :=
  Free.cons (fun _ => trivial) (h _)

theorem Free.name {text : String} (ht : isIdentifier text) {ts : List Token} (h : Free ts) :
    Free (.name text :: ts) :=
  Free.cons (fun _ => ht) (h _)

theorem Free.decision {d : Decision} (hd : d ≠ .undecided) {ts : List Token} (h : Free ts) :
    Free (d.token :: ts) := by
  cases d with
  | permit => exact h.keyword _
  | deny => exact h.keyword _
  | undecided => exact absurd rfl hd

theorem Free.operator (op : Operator) {ts : List Token} (h : Free ts) : Free (op.token :: ts) := by
  cases op with
  | regex => exact h.keyword _
  | _ => exact h.mark _

theorem free_parens {ts : List Token} (h : Spellable false ts) : Free (parens ts) :=
  Free.cons (fun _ => trivial) (h.append (Free.mark _ Free.nil))

theorem free_braces {ts : List Token} (h : Free ts) : Free (braces ts) :=
  Free.mark _ (h.append (Free.mark _ Free.nil))

theorem free_paramTokens {params : List (String × String)}
    (h : ∀ p ∈ params, isIdentifier p.1 ∧ isIdentifier p.2) :
    Free (paramTokens params) ∧ Free (paramTokens params).tail := by
  induction params with
  | nil => exact ⟨Free.nil, Free.nil⟩
  | cons p params ih =>
    obtain ⟨⟨hname, href⟩, hrest⟩ := List.forall_mem_cons.mp h
    have htail : Free (paramTokens (p :: params)).tail :=
      Free.name hname (Free.mark _ (Free.name href (ih hrest).1))
    exact ⟨htail.mark _, htail⟩

end Source

open Source

theorem Term.spellable_tokens {t : Term String} (h : t.WellFormed) : Spellable false t.tokens := by
  induction t with
  | string text => exact ⟨trivial, trivial⟩
  | number n => exact ⟨fun hterm => Bool.noConfusion hterm, trivial⟩
  | attr ref => exact ⟨h, trivial⟩
  | coerce operand kind ih => exact (free_parens (ih h)).keyword _ _
  | binary op lhs rhs ihl ihr =>
    exact ((free_parens (ihl h.1)).append ((free_parens (ihr h.2)).operator op)) _
  | request key => exact ⟨trivial, trivial, trivial⟩
  | rest url method params => exact ⟨trivial, trivial, (free_paramTokens h.2).2 _⟩

theorem Condition.free_tokens {c : Condition String} (h : c.WellFormed) : Free c.tokens := by
  induction c with
  | not inner ih => exact (free_parens (ih h false)).keyword _
  | and lhs rhs ihl ihr =>
    exact (free_parens (ihl h.1 false)).append ((free_parens (ihr h.2 false)).keyword _)
  | or lhs rhs ihl ihr =>
    exact (free_parens (ihl h.1 false)).append ((free_parens (ihr h.2 false)).keyword _)
  | equal lhs rhs | greater lhs rhs =>
    exact (free_parens (Term.spellable_tokens h.1)).append
      ((free_parens (Term.spellable_tokens h.2)).mark _)

mutual

theorem Rule.free_tokens (r : Rule String) (h : r.WellFormed) : Free r.tokens := by
  cases r with
  | always decision => exact (Free.nil.decision h).keyword _
  | never => exact Free.nil.keyword _
  | when condition decision => exact ((Condition.free_tokens h.1).keyword _).decision h.2
  | branch condition onTrue onFalse =>
    have hlegs := (free_tokens onTrue h.2.1).append ((free_tokens onFalse h.2.2).keyword .otherwise)
    exact ((Condition.free_tokens h.1).append hlegs).keyword _
  | majority decision members =>
    exact ((free_braces (free_memberTokens members h.2.2).2).decision h.1).keyword _
  | all decision members =>
    exact ((free_braces (free_memberTokens members h.2.2).2).decision h.1).keyword _
  | any decision members =>
    exact ((free_braces (free_memberTokens members h.2.2).2).decision h.1).keyword _
  | oneOf members => exact (free_braces (free_memberTokens members h.2).2).keyword _

theorem Rule.free_memberTokens (rs : List (Rule String)) (h : Rule.MembersWellFormed rs) :
    Free (Rule.memberTokens rs) ∧ Free (Rule.memberTokens rs).tail := by
  cases rs with
  | nil => exact ⟨Free.nil, Free.nil⟩
  | cons r rs =>
    have htail := (free_tokens r h.1).append (free_memberTokens rs h.2).1
    exact ⟨htail.mark _, htail⟩

end

theorem free_flatMap {α : Type} {f : α → List Token} {xs : List α} (h : ∀ x ∈ xs, Free (f x)) :
    Free (xs.flatMap f) := by
  induction xs with
  | nil => exact Free.nil
  | cons x xs ih =>
    obtain ⟨hx, hxs⟩ := List.forall_mem_cons.mp h
    exact hx.append (ih hxs)

theorem RuleSet.free_tokens {set : RuleSet String} (h : set.WellFormed) : Free set.tokens := by
  have hattributes : ∀ a ∈ set.attributes, Free a.tokens := by
    intro a ha
    obtain ⟨hname, hvalue⟩ := h.attributes a ha
    exact Free.name hname ((free_parens (Term.spellable_tokens hvalue)).mark _)
  exact (free_flatMap hattributes).append
    (free_flatMap fun r hr => Rule.free_tokens r (h.rules r hr))

/-- The text of a printed policy has the tokens that were printed. -/
theorem Source.scan_print {set : RuleSet String} (h : set.WellFormed) :
    ∃ located, scan (print set) = .ok located ∧
      located.map (·.token) = set.tokens ++ [.eof] :=
  scan_spelling (RuleSet.free_tokens h false)

end Policy
