import Policy.Proofs.Outcome
import Policy.Proofs.WellFormed

namespace Policy.Source

/-! ## Blanks -/

/-- The characters begin with white space, unless there are none. -/
def Clear (cs : List Char) : Prop := ∀ c ∈ cs.head?, Unicode.isBlank c

theorem clear_nil : Clear [] := fun _ h => nomatch h

theorem clear_cons {c : Char} (hc : Unicode.isBlank c) (cs : List Char) : Clear (c :: cs) := by
  intro d hd
  cases hd
  exact hc

namespace Lead

theorem takeWhile_clear {p : Char → Bool} {cs rest : List Char} (hcs : ∀ c ∈ cs, p c)
    (hblank : ∀ c, Unicode.isBlank c → p c = false) (hrest : Clear rest) :
    (cs ++ rest).takeWhile p = cs := by
  rw [List.takeWhile_append_of_pos hcs]
  cases rest with
  | nil => rw [List.takeWhile_nil, List.append_nil]
  | cons c rest =>
    rw [List.takeWhile_cons_of_neg (by simp [hblank c (hrest c rfl)]), List.append_nil]

theorem dropWhile_clear {p : Char → Bool} {cs rest : List Char} (hcs : ∀ c ∈ cs, p c)
    (hblank : ∀ c, Unicode.isBlank c → p c = false) (hrest : Clear rest) :
    (cs ++ rest).dropWhile p = rest := by
  rw [List.dropWhile_append_of_pos hcs]
  cases rest with
  | nil => rw [List.dropWhile_nil]
  | cons c rest => rw [List.dropWhile_cons_of_neg (by simp [hblank c (hrest c rfl)])]

theorem isAlpha_cases {c : Char} (h : c.isAlpha) :
    (65 ≤ c.toNat ∧ c.toNat ≤ 90) ∨ (97 ≤ c.toNat ∧ c.toNat ≤ 122) := by
  rcases letter_of_isAlpha h with ⟨hlow, hhigh⟩ | ⟨hlow, hhigh⟩
  · exact .inl ⟨UInt32.le_iff_toNat_le.mp hlow, UInt32.le_iff_toNat_le.mp hhigh⟩
  · exact .inr ⟨UInt32.le_iff_toNat_le.mp hlow, UInt32.le_iff_toNat_le.mp hhigh⟩

theorem isDigit_cases {c : Char} (h : c.isDigit) : 48 ≤ c.toNat ∧ c.toNat ≤ 57 := by
  simpa [Char.isDigit, Char.le_def, UInt32.le_iff_toNat_le] using h

theorem isBlank_of_visible {c : Char} (h : 33 ≤ c.toNat) (h' : c.toNat ≤ 126) :
    Unicode.isBlank c = false := by
  simp only [Unicode.isBlank, Bool.or_eq_false_iff, Bool.and_eq_false_iff, decide_eq_false_iff_not,
    beq_eq_false_iff_ne]
  omega

theorem isWordChar_of_isBlank (c : Char) (h : Unicode.isBlank c) : isWordChar c = false := by
  refine Bool.eq_false_iff.mpr fun hword => ?_
  have hvisible : 33 ≤ c.toNat ∧ c.toNat ≤ 126 := by
    simp only [isWordChar, Char.isAlphanum, Bool.or_eq_true, decide_eq_true_eq] at hword
    rcases hword with (halpha | hdigit) | rfl
    · have hrange := isAlpha_cases halpha
      omega
    · have hrange := isDigit_cases hdigit
      omega
    · decide
  rw [isBlank_of_visible hvisible.1 hvisible.2] at h
  cases h

theorem isDigit_of_isBlank (c : Char) (h : Unicode.isBlank c) : c.isDigit = false := by
  have hword := isWordChar_of_isBlank c h
  simp only [isWordChar, Char.isAlphanum, Bool.or_eq_false_iff] at hword
  exact hword.1.2

theorem ne_of_isBlank {c d : Char} (hc : Unicode.isBlank c) (hd : Unicode.isBlank d = false) :
    c ≠ d := by
  rintro rfl
  rw [hc] at hd
  cases hd

/-- What neither starts a comment nor a string is blank, or it starts a number, a mark or a word. -/
theorem of_else {afterTerm : Bool} {c : Char} {cs : List Char}
    (hline : ∀ rest, c = '/' → cs = '/' :: rest → False)
    (hblock : ∀ rest, c = '/' → cs = '*' :: rest → False) (hquote : c ≠ '"') :
    Lead.of afterTerm (c :: cs) =
      if Unicode.isBlank c then .ok (layout [c], cs) else ofPlain afterTerm (c :: cs) := by
  unfold Lead.of
  split
  · next rest heq =>
    cases heq
    exact (hline rest rfl rfl).elim
  · next rest heq =>
    cases heq
    exact (hblock rest rfl rfl).elim
  · next heq =>
    cases heq
    exact absurd rfl hquote
  · next heq =>
    cases heq
    rfl
  · next heq => cases heq

theorem of_plain {afterTerm : Bool} {c : Char} {cs : List Char} (hslash : c ≠ '/')
    (hquote : c ≠ '"') (hblank : Unicode.isBlank c = false) :
    Lead.of afterTerm (c :: cs) = ofPlain afterTerm (c :: cs) := by
  rw [of_else (fun _ hc => absurd hc hslash) (fun _ hc => absurd hc hslash) hquote, hblank]
  rfl

theorem of_blank (afterTerm : Bool) {c : Char} (hc : Unicode.isBlank c) (cs : List Char) :
    Lead.of afterTerm (c :: cs) = .ok (layout [c], cs) := by
  have hslash : c ≠ '/' := ne_of_isBlank hc (by decide)
  have hquote : c ≠ '"' := ne_of_isBlank hc (by decide)
  rw [of_else (fun _ h => absurd h hslash) (fun _ h => absurd h hslash) hquote, if_pos hc]

theorem of_lineComment (afterTerm : Bool) (cs : List Char) :
    Lead.of afterTerm ('/' :: '/' :: cs) =
      .ok (layout ('/' :: '/' :: cs.takeWhile (· ≠ '\n')), cs.dropWhile (· ≠ '\n')) := rfl

theorem of_blockComment {cs body rest : List Char} (h : blockEnd? cs = some (body, rest))
    (afterTerm : Bool) :
    Lead.of afterTerm ('/' :: '*' :: cs) = .ok (layout ('/' :: '*' :: body), rest) := by
  unfold Lead.of
  simp only [h]

end Lead

/-! ## Scanning -/

theorem scan_ofList (cs : List Char) :
    scan (String.ofList cs) = scanFrom cs.length .start false cs := by
  rw [scan, String.toList_ofList]

theorem scanFrom_token {room : Nat} {p : Position} {afterTerm : Bool} {cs rest : List Char}
    {t : Token} {width : Nat} (hne : cs ≠ [])
    (h : Lead.of afterTerm cs = .ok (.token t width, rest)) :
    scanFrom (room + 1) p afterTerm cs =
      (scanFrom room (p.right width) t.endsTerm rest).map (⟨t, p⟩ :: ·) := by
  obtain ⟨c, cs, rfl⟩ := List.exists_cons_of_ne_nil hne
  rw [scanFrom, h]
  · rfl
  · exact hne

theorem scanFrom_nil (room : Nat) (p : Position) (afterTerm : Bool) :
    scanFrom room p afterTerm [] = .ok [⟨.eof, p⟩] := by
  cases room with
  | zero => rfl
  | succ room => rfl

theorem scanFrom_layout {room : Nat} {p : Position} {afterTerm : Bool}
    {cs skipped rest : List Char} (hne : cs ≠ [])
    (h : Lead.of afterTerm cs = .ok (.layout skipped, rest)) :
    scanFrom (room + 1) p afterTerm cs = scanFrom room (p.behind skipped) afterTerm rest := by
  rw [scanFrom, h]
  exact hne

/-- Scanning the characters gives these tokens, wherever they stand. -/
def Scans (afterTerm : Bool) (cs : List Char) (ts : List Token) : Prop :=
  ∀ room p, cs.length ≤ room →
    ∃ located, scanFrom room p afterTerm cs = .ok located ∧ located.map (·.token) = ts

theorem Scans.scan {cs : List Char} {ts : List Token} (h : Scans false cs ts) :
    ∃ located, scan (String.ofList cs) = .ok located ∧ located.map (·.token) = ts := by
  rw [scan_ofList]
  exact h _ .start (Nat.le_refl _)

theorem scans_nil (afterTerm : Bool) : Scans afterTerm [] [.eof] :=
  fun room p _ => ⟨[⟨.eof, p⟩], scanFrom_nil room p afterTerm, rfl⟩

theorem scans_layout {afterTerm : Bool} {cs skipped rest : List Char} {ts : List Token}
    (hlead : Lead.of afterTerm cs = .ok (.layout skipped, rest))
    (hshorter : rest.length < cs.length) (h : Scans afterTerm rest ts) : Scans afterTerm cs ts := by
  intro room p hroom
  obtain ⟨c, cs, rfl⟩ := List.exists_cons_of_length_pos (Nat.zero_lt_of_lt hshorter)
  rw [List.length_cons] at hroom hshorter
  obtain ⟨room, rfl⟩ : ∃ k, room = k + 1 := ⟨room - 1, by omega⟩
  obtain ⟨located, hscan, hmap⟩ := h room (p.behind skipped) (by omega)
  exact ⟨located, (scanFrom_layout (List.cons_ne_nil _ _) hlead).trans hscan, hmap⟩

theorem scans_token {afterTerm : Bool} {cs rest : List Char} {t : Token} {width : Nat}
    {ts : List Token} (hlead : Lead.of afterTerm cs = .ok (.token t width, rest))
    (hshorter : rest.length < cs.length) (h : Scans t.endsTerm rest ts) :
    Scans afterTerm cs (t :: ts) := by
  intro room p hroom
  have hne : cs ≠ [] := by
    rintro rfl
    cases hshorter
  obtain ⟨room, rfl⟩ : ∃ k, room = k + 1 := ⟨room - 1, by omega⟩
  obtain ⟨located, hscan, hmap⟩ := h room (p.right width) (by omega)
  refine ⟨⟨t, p⟩ :: located, ?_, by rw [List.map_cons, hmap]⟩
  rw [scanFrom_token hne hlead, hscan]
  rfl

theorem scans_line {afterTerm : Bool} {more : List Char} {ts : List Token}
    (h : Scans afterTerm more ts) : Scans afterTerm ('\n' :: more) ts := by
  have hlead : Lead.of afterTerm ('\n' :: more) = .ok (.layout ['\n'], more) := rfl
  exact scans_layout hlead (Nat.lt_succ_self _) h

/-! ## Layout between tokens -/

/-- No comment ends among the characters. -/
def Unended (cs : List Char) : Prop := ¬ ['*', '/'] <:+: cs

/-- White space and comments. A comment that starts with two slashes goes up to a line break. -/
inductive Layout : List Char → Prop
  | nil : Layout []
  | blank {c : Char} {cs : List Char} (hc : Unicode.isBlank c) (h : Layout cs) : Layout (c :: cs)
  | line {body cs : List Char} (hbody : '\n' ∉ body) (h : Layout cs) :
    Layout ('/' :: '/' :: (body ++ '\n' :: cs))
  | block {body cs : List Char} (hbody : Unended body) (h : Layout cs) :
    Layout ('/' :: '*' :: (body ++ '*' :: '/' :: cs))

theorem unended_cons {c : Char} {cs : List Char} :
    Unended (c :: cs) ↔ (c = '*' → ∀ more, cs ≠ '/' :: more) ∧ Unended cs := by
  have hprefix : ['*', '/'] <+: c :: cs ↔ c = '*' ∧ ∃ more, cs = '/' :: more := by
    constructor
    · rintro ⟨more, heq⟩
      cases heq
      exact ⟨rfl, more, rfl⟩
    · rintro ⟨rfl, more, rfl⟩
      exact ⟨more, rfl⟩
  simp only [Unended, List.infix_cons_iff, not_or, hprefix, not_and, not_exists, ne_eq]

namespace Lead

theorem blockEnd_of_unended {body : List Char} (h : Unended body) (rest : List Char) :
    blockEnd? (body ++ '*' :: '/' :: rest) = some (body ++ ['*', '/'], rest) := by
  induction body with
  | nil => rfl
  | cons c body ih =>
    obtain ⟨hc, hbody⟩ := unended_cons.mp h
    rw [List.cons_append, blockEnd?]
    · rw [ih hbody]
      rfl
    · intro tail hstar heq
      cases body with
      | nil => cases heq
      | cons d body =>
        cases heq
        exact hc hstar _ rfl

theorem dropWhile_until_line {body : List Char} (h : '\n' ∉ body) (rest : List Char) :
    (body ++ '\n' :: rest).dropWhile (· ≠ '\n') = '\n' :: rest := by
  have hbody : ∀ c ∈ body, decide (c ≠ '\n') = true := fun c hc =>
    decide_eq_true fun heq => h (heq ▸ hc)
  rw [List.dropWhile_append_of_pos hbody, List.dropWhile_cons_of_neg (by decide)]

end Lead

theorem Layout.append {gap more : List Char} (h : Layout gap) (hmore : Layout more) :
    Layout (gap ++ more) := by
  induction h with
  | nil => exact hmore
  | blank hc _ ih => exact .blank hc ih
  | line hbody _ ih =>
    simp only [List.cons_append, List.append_assoc]
    exact .line hbody ih
  | block hbody _ ih =>
    simp only [List.cons_append, List.append_assoc]
    exact .block hbody ih

/-- Layout has no tokens. By induction on it, where every part is a lead of its own. -/
theorem Layout.scans {gap rest : List Char} (h : Layout gap) {afterTerm : Bool} {ts : List Token}
    (hrest : Scans afterTerm rest ts) : Scans afterTerm (gap ++ rest) ts := by
  induction h with
  | nil => exact hrest
  | blank hc _ ih => exact scans_layout (Lead.of_blank afterTerm hc _) (Nat.lt_succ_self _) ih
  | @line body cs hbody _ ih =>
    simp only [List.cons_append, List.append_assoc]
    have hlead := Lead.of_lineComment afterTerm (body ++ '\n' :: (cs ++ rest))
    rw [Lead.dropWhile_until_line hbody] at hlead
    refine scans_layout hlead ?_ (scans_line ih)
    simp only [List.length_cons, List.length_append]
    omega
  | @block body cs hbody _ ih =>
    simp only [List.cons_append, List.append_assoc]
    have hend := Lead.blockEnd_of_unended hbody (cs ++ rest)
    refine scans_layout (Lead.of_blockComment hend afterTerm) ?_ ih
    simp only [List.length_cons, List.length_append]
    omega

end Policy.Source
