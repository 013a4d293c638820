import Policy.Proofs.Source.Lexemes
import Mathlib.Data.List.Induction

namespace Policy.Source

/-! ## Counting lines and columns -/

namespace Position

/-- The position behind the first characters of a text: one more line than they have line breaks,
and one more column than there are characters behind the last of these. -/
def counted (before : List Char) : Position :=
  ⟨1 + before.count '\n', 1 + (before.reverse.takeWhile (· ≠ '\n')).length⟩

variable (p : Position)

theorem behind_append (xs ys : List Char) : p.behind (xs ++ ys) = (p.behind xs).behind ys :=
  List.foldl_append

theorem behind_cons (c : Char) (cs : List Char) : p.behind (c :: cs) = (p.after c).behind cs := rfl

theorem right_right (n m : Nat) : (p.right n).right m = p.right (n + m) := by
  simp only [right, Nat.add_assoc]

theorem line_behind (cs : List Char) : (p.behind cs).line = p.line + cs.count '\n' := by
  induction cs generalizing p with
  | nil => rfl
  | cons c cs ih =>
    rw [behind_cons, ih, after, List.count_cons]
    split
    · next hc => simp only [hc, beq_self_eq_true, if_true]; omega
    · next hc => simp only [right, beq_iff_eq, hc, if_false]; omega

theorem behind_of_notMem {cs : List Char} (h : '\n' ∉ cs) : p.behind cs = p.right cs.length := by
  induction cs generalizing p with
  | nil => rfl
  | cons c cs ih =>
    obtain ⟨hc, hcs⟩ := List.ne_and_not_mem_of_not_mem_cons h
    rw [behind_cons, after, if_neg (Ne.symm hc), ih _ hcs, right_right, List.length_cons,
      Nat.add_comm]

/-- Going through a text counts its lines and columns. By induction on the text, from its end. -/
theorem behind_start (before : List Char) : start.behind before = counted before := by
  induction before using List.reverseRecOn with
  | nil => rfl
  | append_singleton before c ih =>
    have hlast : (start.behind (before ++ [c])) = (counted before).after c := by
      rw [behind_append, ih]
      rfl
    rw [hlast, after, counted, counted, List.reverse_append, List.count_append]
    split
    · next hc =>
      subst hc
      rfl
    · next hc =>
      simp only [right, List.reverse_singleton, List.singleton_append, ne_eq, hc, not_false_eq_true,
        decide_true, List.takeWhile_cons_of_pos, List.length_cons, List.count_singleton, beq_iff_eq,
        if_false]
      rfl

end Position

/-! ## A text as a row of tokens -/

/-- A token, the characters that stand for it, and the layout in front of them. -/
structure Piece where
  layout : List Char
  spelling : List Char
  token : Token
  isLayout : Layout layout
  spelled : token.SpelledBy spelling

namespace Piece

def chars (x : Piece) : List Char := x.layout ++ x.spelling

/-- A string with an escaped line break in it. -/
def Broken (x : Piece) : Prop := ['\\', '\n'] <:+: x.spelling

end Piece

/-- All characters of some pieces of a text. -/
def charsOf (pieces : List Piece) : List Char := pieces.flatMap Piece.chars

theorem charsOf_cons (x : Piece) (pieces : List Piece) :
    charsOf (x :: pieces) = x.layout ++ (x.spelling ++ charsOf pieces) := by
  rw [charsOf, List.flatMap_cons, Piece.chars, List.append_assoc]
  rfl

/-- Layout, at the end perhaps a comment without a line break behind it. -/
def Ends (tail : List Char) : Prop :=
  Layout tail ∨ ∃ gap body, tail = gap ++ '/' :: '/' :: body ∧ Layout gap ∧ '\n' ∉ body

/-- The position behind some pieces, when a token only takes columns. -/
def reached (p : Position) : List Piece → Position
  | [] => p
  | x :: pieces => reached ((p.behind x.layout).right x.spelling.length) pieces

/-- The tokens of some pieces, each at the position that is reached in front of it. -/
def placed (p : Position) : List Piece → (tail : List Char) → List Located
  | [], tail => [⟨.eof, p.behind tail⟩]
  | x :: pieces, tail =>
    ⟨x.token, p.behind x.layout⟩ ::
      placed ((p.behind x.layout).right x.spelling.length) pieces tail

/-- What a scan comes to, told by the pieces of the text. -/
def Accounted (p : Position) (cs : List Char) : Except Refusal (List Located) → Prop
  | .ok located => ∃ pieces tail, cs = charsOf pieces ++ tail ∧ Ends tail ∧
      located = placed p pieces tail
  | .error r => ∃ pieces gap rest, cs = charsOf pieces ++ (gap ++ rest) ∧ Layout gap ∧
      Offends r.cause rest ∧ r.pos = (reached p pieces).behind gap

/-! ## Scanning accounts for a text -/

theorem Accounted.piece {p : Position} (x : Piece) {rest : List Char}
    {outcome : Except Refusal (List Located)}
    (h : Accounted ((p.behind x.layout).right x.spelling.length) rest outcome) :
    Accounted p (x.layout ++ (x.spelling ++ rest))
      (outcome.map (⟨x.token, p.behind x.layout⟩ :: ·)) := by
  cases outcome with
  | ok located =>
    obtain ⟨pieces, tail, rfl, htail, rfl⟩ := h
    refine ⟨x :: pieces, tail, ?_, htail, rfl⟩
    simp only [charsOf_cons, List.append_assoc]
  | error r =>
    obtain ⟨pieces, gap, behind, rfl, hgap, hoffends, hpos⟩ := h
    refine ⟨x :: pieces, gap, behind, ?_, hgap, hoffends, hpos⟩
    simp only [charsOf_cons, List.append_assoc]

/-- By induction on the room. The layout behind the last token that was scanned is `gap`. -/
theorem accounted_scanFrom (p : Position) (afterTerm : Bool) {room : Nat} {gap cs : List Char}
    (hroom : cs.length ≤ room) (hgap : Layout gap) :
    Accounted p (gap ++ cs) (scanFrom room (p.behind gap) afterTerm cs) := by
  induction room using Nat.strongRecOn generalizing p afterTerm gap cs with
  | ind room ih =>
    cases cs with
    | nil =>
      rw [scanFrom_nil]
      exact ⟨[], gap, List.append_nil gap, .inl hgap, rfl⟩
    | cons c cs =>
      obtain ⟨room, rfl⟩ := Nat.exists_eq_add_one_of_ne_zero (Nat.ne_zero_of_lt hroom)
      have hne := List.cons_ne_nil c cs
      have htold := Lead.told_of afterTerm hne
      cases hlead : Lead.of afterTerm (c :: cs) with
      | error cause =>
        rw [hlead] at htold
        have hrefused : scanFrom (room + 1) (p.behind gap) afterTerm (c :: cs) =
            .error ⟨p.behind gap, cause⟩ := by
          rw [scanFrom, hlead]
          exact hne
        rw [hrefused]
        exact ⟨[], gap, c :: cs, rfl, hgap, htold, rfl⟩
      | ok found =>
        obtain ⟨lead, rest⟩ := found
        have hshorter := (Lead.split_of hne hlead).shorter
        have hrest : rest.length ≤ room := by omega
        rw [hlead] at htold
        cases lead with
        | token t width =>
          obtain ⟨written, hcs, rfl, hspelled⟩ := htold
          rw [scanFrom_token hne hlead, hcs]
          have hbehind := ih room (Nat.lt_succ_self room) ((p.behind gap).right written.length)
            t.endsTerm hrest .nil
          exact Accounted.piece ⟨gap, written, t, hgap, hspelled⟩ hbehind
        | layout skipped =>
          obtain ⟨hcs, hskips⟩ := htold
          rw [scanFrom_layout hne hlead, ← Position.behind_append, hcs, ← List.append_assoc]
          rcases hskips with hlayout | ⟨body, rfl, hbody, rfl | ⟨more, rfl⟩⟩
          · exact ih room (Nat.lt_succ_self room) p afterTerm hrest (hgap.append hlayout)
          · rw [scanFrom_nil]
            exact ⟨[], _, List.append_nil _, .inr ⟨gap, body, rfl, hgap, hbody⟩, rfl⟩
          · -- The comment is layout as soon as the line break behind it is skipped as well.
            obtain ⟨room, rfl⟩ := Nat.exists_eq_add_one_of_ne_zero (Nat.ne_zero_of_lt hrest)
            have hline : Layout (gap ++ '/' :: '/' :: body ++ ['\n']) := by
              rw [List.append_assoc]
              exact hgap.append (.line hbody .nil)
            rw [scanFrom_layout (List.cons_ne_nil _ _) (Lead.of_blank afterTerm (by decide) more),
              ← Position.behind_append, List.append_cons]
            exact ih room (by omega) p afterTerm (Nat.le_of_succ_le_succ hrest) hline

/-! ## Where positions are true

A token that goes over a line break is counted as if it stood on one line. -/

theorem notMem_of_isWord {text : String} (h : isWord text) : '\n' ∉ text.toList := by
  unfold isWord at h
  split at h
  · cases h
  · next c cs htext =>
    simp only [Bool.and_eq_true, List.all_eq_true] at h
    rw [htext]
    intro hmem
    rcases List.mem_cons.mp hmem with rfl | hmem
    · exact absurd h.1 (by decide)
    · exact absurd (h.2 _ hmem) (by decide)

theorem IsNumeral.notMem {written : List Char} (h : IsNumeral written) : '\n' ∉ written := by
  obtain ⟨sign, digits, rfl, hsign, hdigits⟩ := h
  simp only [Decimal.isDigits, Bool.and_eq_true, List.all_eq_true] at hdigits
  intro hmem
  rcases List.mem_append.mp hmem with hmem | hmem
  · rcases hsign with rfl | rfl
    · cases hmem
    · exact absurd hmem (by decide)
  · exact absurd (hdigits.2 _ hmem) (by decide)

/-- In a string, a line break only stands behind a backslash. -/
theorem Unquoted.escaped {body content : List Char} (h : Unquoted body content)
    (hline : '\n' ∈ body) : ['\\', '\n'] <:+: body := by
  induction h with
  | nil => cases hline
  | plain _ _ hc _ ih =>
    rcases List.mem_cons.mp hline with heq | hmem
    · exact absurd heq.symm hc
    · exact List.infix_cons (ih hmem)
  | @pair c body content _ ih =>
    rcases List.mem_cons.mp hline with heq | hmem
    · cases heq
    · rcases List.mem_cons.mp hmem with rfl | hmem
      · exact ⟨[], body, rfl⟩
      · exact List.infix_cons (List.infix_cons (ih hmem))

theorem Token.SpelledBy.escaped {t : Token} {written : List Char} (h : t.SpelledBy written)
    (hline : '\n' ∈ written) : ['\\', '\n'] <:+: written := by
  cases t with
  | keyword k =>
    rw [h] at hline
    exact absurd hline (notMem_of_isWord k.isWord_text)
  | name text =>
    obtain ⟨rfl, htext⟩ := h
    exact absurd hline (notMem_of_isWord (Bool.and_eq_true_iff.mp htext).1)
  | str text =>
    obtain ⟨body, rfl, hbody⟩ := h
    have hmem : '\n' ∈ body := by simpa using hline
    exact (hbody.escaped hmem).trans ⟨['"'], ['"'], rfl⟩
  | int n => exact absurd hline h.1.notMem
  | mark m =>
    rw [h] at hline
    exact absurd hline (by cases m <;> decide)
  | eof => exact h.elim

theorem Piece.broken_iff (x : Piece) : x.Broken ↔ '\n' ∈ x.spelling :=
  ⟨fun h => h.subset (by simp), x.spelled.escaped⟩

/-- The lines that are counted are those outside of tokens. -/
theorem line_reached (p : Position) (pieces : List Piece) :
    (reached p pieces).line + (pieces.flatMap Piece.spelling).count '\n' =
      (p.behind (charsOf pieces)).line := by
  induction pieces generalizing p with
  | nil => rfl
  | cons x pieces ih =>
    have hbehind := ih ((p.behind x.layout).right x.spelling.length)
    have hline : ((p.behind x.layout).right x.spelling.length).line =
        (p.behind x.layout).line := rfl
    rw [Position.line_behind, hline, Position.line_behind] at hbehind
    rw [reached, charsOf_cons, List.flatMap_cons, List.count_append, Position.line_behind,
      List.count_append, List.count_append]
    omega

theorem reached_eq_iff (p : Position) (pieces : List Piece) (gap : List Char) :
    (reached p pieces).behind gap = p.behind (charsOf pieces ++ gap) ↔
      ∀ x ∈ pieces, ¬ x.Broken := by
  rw [Position.behind_append]
  constructor
  · intro h x hx
    have hlines := line_reached p pieces
    have hgap := congrArg Position.line h
    rw [Position.line_behind, Position.line_behind] at hgap
    have hnone : (pieces.flatMap Piece.spelling).count '\n' = 0 := by omega
    rw [x.broken_iff]
    exact fun hmem => List.count_eq_zero.mp hnone (List.mem_flatMap.mpr ⟨x, hx, hmem⟩)
  · intro h
    congr 1
    induction pieces generalizing p with
    | nil => rfl
    | cons x pieces ih =>
      obtain ⟨hx, hpieces⟩ := List.forall_mem_cons.mp h
      rw [x.broken_iff] at hx
      rw [reached, ih _ hpieces, charsOf_cons, Position.behind_append, Position.behind_append,
        Position.behind_of_notMem _ hx]

theorem reached_true_iff (pieces : List Piece) (gap : List Char) :
    (reached .start pieces).behind gap = .counted (charsOf pieces ++ gap) ↔
      ∀ x ∈ pieces, ¬ x.Broken := by
  rw [← Position.behind_start]
  exact reached_eq_iff .start pieces gap

/-- The characters in front of the token with this number, or in front of the end. -/
def charsBefore (pieces : List Piece) (tail : List Char) (i : Nat) : List Char :=
  charsOf (pieces.take i) ++ (pieces[i]?.elim tail Piece.layout)

theorem pos_of_placed {p : Position} {pieces : List Piece} {tail : List Char} {i : Nat}
    {t : Located} (h : (placed p pieces tail)[i]? = some t) :
    t.pos = (reached p (pieces.take i)).behind (pieces[i]?.elim tail Piece.layout) := by
  induction pieces generalizing p i with
  | nil =>
    cases i with
    | zero =>
      cases h
      rfl
    | succ i => cases h
  | cons x pieces ih =>
    cases i with
    | zero =>
      cases h
      rfl
    | succ i => exact ih h

theorem tokens_of_placed (p : Position) (pieces : List Piece) (tail : List Char) :
    (placed p pieces tail).map (·.token) = pieces.map Piece.token ++ [.eof] := by
  induction pieces generalizing p with
  | nil => rfl
  | cons x pieces ih => rw [placed, List.map_cons, ih, List.map_cons, List.cons_append]

/-- A token stands where counting lines and columns says, and so does the end of the text and what
a text is refused for, exactly as long as no string with an escaped line break comes before. -/
theorem positions_of_scan (text : String) :
    (∀ located, scan text = .ok located →
        ∃ pieces tail, text.toList = charsOf pieces ++ tail ∧ Ends tail ∧
          located.map (·.token) = pieces.map Piece.token ++ [.eof] ∧
          ∀ i t, located[i]? = some t →
            (t.pos = .counted (charsBefore pieces tail i) ↔ ∀ x ∈ pieces.take i, ¬ x.Broken)) ∧
      ∀ r, scan text = .error r →
        ∃ pieces gap rest, text.toList = charsOf pieces ++ (gap ++ rest) ∧ Layout gap ∧
          Offends r.cause rest ∧
          (r.pos = .counted (charsOf pieces ++ gap) ↔ ∀ x ∈ pieces, ¬ x.Broken) := by
  have haccounted : Accounted .start text.toList (scan text) :=
    accounted_scanFrom .start false (Nat.le_refl _) .nil
  constructor
  · intro located hscan
    rw [hscan] at haccounted
    obtain ⟨pieces, tail, hchars, htail, rfl⟩ := haccounted
    refine ⟨pieces, tail, hchars, htail, tokens_of_placed _ _ _, fun i t ht => ?_⟩
    rw [pos_of_placed ht]
    exact reached_true_iff _ _
  · intro r hscan
    rw [hscan] at haccounted
    obtain ⟨pieces, gap, rest, hchars, hgap, hoffends, hpos⟩ := haccounted
    refine ⟨pieces, gap, rest, hchars, hgap, hoffends, ?_⟩
    rw [hpos]
    exact reached_true_iff _ _

/-- A string over two lines, with a token on either side and a comment over two lines in front. -/
def acrossLines : List Char := "/*\n*/ x \"\\\n\" y".toList

def acrossLinesTokens : List Located :=
  [⟨.name "x", ⟨2, 4⟩⟩, ⟨.str "\\\n", ⟨2, 6⟩⟩, ⟨.name "y", ⟨2, 11⟩⟩, ⟨.eof, ⟨2, 12⟩⟩]

theorem positions_of_acrossLines :
    scan (String.ofList acrossLines) = .ok acrossLinesTokens ∧
      (∃ pieces tail, acrossLines = charsOf pieces ++ tail ∧ Ends tail ∧
        acrossLinesTokens.map (·.token) = pieces.map Piece.token ++ [.eof] ∧
        ∀ i t, acrossLinesTokens[i]? = some t →
          (t.pos = .counted (charsBefore pieces tail i) ↔ ∀ x ∈ pieces.take i, ¬ x.Broken)) ∧
      scan (String.ofList (acrossLines ++ ['#'])) = .error ⟨⟨2, 12⟩, .strayCharacter '#'⟩ ∧
      ∃ pieces gap rest, acrossLines ++ ['#'] = charsOf pieces ++ (gap ++ rest) ∧ Layout gap ∧
        Offends (.strayCharacter '#') rest ∧
        (⟨2, 12⟩ = Position.counted (charsOf pieces ++ gap) ↔ ∀ x ∈ pieces, ¬ x.Broken) := by
  have hscan : scan (String.ofList acrossLines) = .ok acrossLinesTokens := by
    rewrite [scan_ofList]
    decide +kernel
  have hrefused : scan (String.ofList (acrossLines ++ ['#'])) =
      .error ⟨⟨2, 12⟩, .strayCharacter '#'⟩ := by
    rewrite [scan_ofList]
    decide +kernel
  have hpieces := (positions_of_scan (String.ofList acrossLines)).1 _ hscan
  have hrest := (positions_of_scan (String.ofList (acrossLines ++ ['#']))).2 _ hrefused
  rw [String.toList_ofList] at hpieces hrest
  exact ⟨hscan, hpieces, hrefused, hrest⟩

/-- Behind a string with an escaped line break, the next token is said to stand on the first line,
in the sixth column. It stands on the second, in the third. -/
theorem escaped_break_shifts_columns :
    scan (String.ofList ['"', '\\', '\n', '"', ' ', 'x']) =
        .ok [⟨.str "\\\n", ⟨1, 1⟩⟩, ⟨.name "x", ⟨1, 6⟩⟩, ⟨.eof, ⟨1, 7⟩⟩] ∧
      Position.counted ['"', '\\', '\n', '"', ' '] = ⟨2, 3⟩ ∧
      Position.counted ['"', '\\', '\n', '"', ' ', 'x'] = ⟨2, 4⟩ := by
  refine ⟨?_, by decide, by decide⟩
  rewrite [scan_ofList]
  decide +kernel

end Policy.Source
