import Policy.Proofs.Outcome
import Policy.Proofs.WellFormed

namespace Policy.Source

/-- Names are identifiers. -/
def Token.Proper : Token → Prop
  | .name text => isIdentifier text
  | _ => True

def Proper (ts : List Located) : Prop := ∀ t ∈ ts, t.token.Proper

theorem proper_cons {t : Located} {ts : List Located} :
    Proper (t :: ts) ↔ t.token.Proper ∧ Proper ts := by
  simp [Proper]

theorem Proper.tail {ts : List Located} (h : Proper ts) : Proper ts.tail :=
  fun t ht => h t (List.mem_of_mem_tail ht)

theorem ofWord_proper {word : String} (h : isWord word) : (Token.ofWord word).Proper := by
  unfold Token.ofWord
  split
  · trivial
  · next hk => simp [Token.Proper, isIdentifier, h, hk]

namespace Lead

theorem isWord_takeWhile {c : Char} (hc : c.isAlpha) (cs : List Char) :
    isWord (String.ofList ((c :: cs).takeWhile isWordChar)) := by
  have hw : isWordChar c := by simp [isWordChar, Char.isAlphanum, hc]
  have hall : ((c :: cs).takeWhile isWordChar).all isWordChar := by simp
  rw [List.takeWhile_cons_of_pos hw] at hall ⊢
  simp only [List.all_cons, Bool.and_eq_true] at hall
  simp [isWord, hc, hall.2]

theorem word_proper {c : Char} {cs rest : List Char} {t : Token} {width : Nat} (hc : c.isAlpha)
    (h : word (c :: cs) = (token t width, rest)) : t.Proper := by
  simp only [word, Prod.mk.injEq, token.injEq] at h
  rw [← h.1.1]
  exact ofWord_proper (isWord_takeWhile hc cs)

theorem number_proper {sign cs rest : List Char} {t : Token} {width : Nat}
    (h : number sign cs = .ok (token t width, rest)) : t.Proper := by
  dsimp only [number] at h
  split at h
  · simp only [Except.ok.injEq, Prod.mk.injEq, token.injEq] at h
    rw [← h.1.1]
    trivial
  · cases h

theorem ofPlain_proper {afterTerm : Bool} {cs rest : List Char} {t : Token} {width : Nat}
    (h : ofPlain afterTerm cs = .ok (token t width, rest)) : t.Proper := by
  unfold ofPlain at h
  split at h
  · split at h
    · exact number_proper h
    · exact number_proper h
  · split at h
    · simp only [Except.ok.injEq, Prod.mk.injEq, token.injEq] at h
      rw [← h.1.1]
      trivial
    · next c cs _ =>
      split at h
      · next hc => exact word_proper hc (Except.ok.inj h)
      · cases h
    · cases h

theorem of_proper {afterTerm : Bool} {cs rest : List Char} {t : Token} {width : Nat}
    (h : Lead.of afterTerm cs = .ok (token t width, rest)) : t.Proper := by
  unfold Lead.of at h
  split at h
  · cases h
  · split at h
    · cases h
    · cases h
  · obtain ⟨⟨content, n, rest'⟩, -, h⟩ := bind_ok_iff.mp h
    simp only [pure_ok_iff, Prod.mk.injEq, token.injEq] at h
    rw [← h.1.1]
    trivial
  · split at h
    · cases h
    · exact ofPlain_proper h
  · cases h

end Lead

theorem scanFrom_proper {room : Nat} {p : Position} {afterTerm : Bool} {cs : List Char}
    {ts : List Located} (h : scanFrom room p afterTerm cs = .ok ts) : Proper ts := by
  induction room generalizing p afterTerm cs ts with
  | zero =>
    cases h
    simp [Proper, Token.Proper]
  | succ room ih =>
    cases cs with
    | nil =>
      cases h
      simp [Proper, Token.Proper]
    | cons c cs =>
      simp only [scanFrom] at h
      split at h
      · cases h
      · exact ih h
      · next hl =>
        obtain ⟨tokens, hs, h⟩ := bind_ok_iff.mp h
        rw [pure_ok_iff] at h
        rw [← h, proper_cons]
        exact ⟨Lead.of_proper hl, ih hs⟩

/-- Every name among the tokens of a text is an identifier. -/
theorem scan_proper {text : String} {ts : List Located} (h : scan text = .ok ts) : Proper ts :=
  scanFrom_proper h

end Policy.Source
