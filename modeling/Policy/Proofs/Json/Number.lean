import Policy.Json.Read
import Policy.Json.Write
import Policy.Number

namespace Policy.Json

/-- What can stand behind a value, with a line for each item or without layout. -/
def Ends (rest : List Char) : Prop := ∀ c cs, rest = c :: cs → c = ',' ∨ c = '\n' ∨ c = '\x7d'

theorem ends_comma (rest : List Char) : Ends (',' :: rest) := by
  intro _ _ h
  cases h
  exact .inl rfl

theorem ends_newline (level : Nat) (rest : List Char) : Ends (newline level ++ rest) :=
  fun _ _ h => by
    cases h
    exact .inr (.inl rfl)

theorem ends_brace (rest : List Char) : Ends ('\x7d' :: rest) := by
  intro _ _ h
  cases h
  exact .inr (.inr rfl)

section Ends

variable {rest : List Char}

theorem Ends.takeWhile (h : Ends rest) : rest.takeWhile isDigit = [] := by
  cases rest with
  | nil => rfl
  | cons c cs =>
    rcases h c cs rfl with rfl | rfl | rfl
    · rfl
    · rfl
    · rfl

theorem Ends.dropWhile (h : Ends rest) : rest.dropWhile isDigit = rest := by
  cases rest with
  | nil => rfl
  | cons c cs =>
    rcases h c cs rfl with rfl | rfl | rfl
    · rfl
    · rfl
    · rfl

theorem Ends.readFraction (h : Ends rest) : readFraction rest = some (none, rest) := by
  cases rest with
  | nil => rfl
  | cons c cs =>
    rcases h c cs rfl with rfl | rfl | rfl
    · rfl
    · rfl
    · rfl

theorem Ends.readExponent (h : Ends rest) : readExponent rest = some (none, rest) := by
  cases rest with
  | nil => rfl
  | cons c cs =>
    rcases h c cs rfl with rfl | rfl | rfl
    · rfl
    · rfl
    · rfl

end Ends

theorem digitChar_ne_zero : ∀ n < 10, 0 < n → Nat.digitChar n ≠ '0' := by
  decide

/-- The digits of a number other than zero do not start with a zero. -/
theorem head_toDigits {n : Nat} (hn : 0 < n) : (Nat.toDigits 10 n).head? ≠ some '0' := by
  induction n using Nat.strongRecOn with
  | _ n ih =>
    by_cases hlt : n < 10
    · rw [Nat.toDigits_of_lt_base hlt]
      intro h
      exact digitChar_ne_zero n hlt hn (Option.some.inj h)
    · have hhead := ih (n / 10) (by omega) (by omega)
      rw [Nat.toDigits_of_base_le (by decide) (by omega)]
      obtain ⟨d, ds, hds⟩ :=
        List.exists_cons_of_ne_nil (Nat.toDigits_ne_nil (b := 10) (n := n / 10))
      rw [hds] at hhead ⊢
      exact hhead

/-- A leading zero stands alone. -/
theorem toDigits_leads (n : Nat) :
    ((Nat.toDigits 10 n).isEmpty ||
      ((Nat.toDigits 10 n).head? = some '0' && 1 < (Nat.toDigits 10 n).length)) = false := by
  have hne : (Nat.toDigits 10 n).isEmpty = false := by
    simp
  rw [hne]
  rcases Nat.eq_zero_or_pos n with rfl | hn
  · rfl
  · simp [head_toDigits hn]

theorem isDigit_toDigits (n : Nat) : ∀ c ∈ Nat.toDigits 10 n, isDigit c :=
  fun _ hc => Nat.isDigit_of_mem_toDigits (by decide) (by decide) hc

/-- The digits of a number in front of what can stand behind it. -/
theorem readUnsigned_toDigits {negative : Bool} {n : Nat} {i : Int} {rest : List Char}
    (hrest : Ends rest) (hwhole : wholeOf? negative (Nat.toDigits 10 n) = some i) :
    readUnsigned negative (Nat.toDigits 10 n ++ rest) = some (.whole i, rest) := by
  have htake : (Nat.toDigits 10 n ++ rest).takeWhile isDigit = Nat.toDigits 10 n := by
    rw [List.takeWhile_append_of_pos (isDigit_toDigits n), hrest.takeWhile, List.append_nil]
  have hdrop : (Nat.toDigits 10 n ++ rest).dropWhile isDigit = rest := by
    rw [List.dropWhile_append_of_pos (isDigit_toDigits n), hrest.dropWhile]
  unfold readUnsigned
  simp only [htake, hdrop]
  rw [if_neg (by rw [toDigits_leads]; exact Bool.noConfusion), hrest.readFraction]
  show (readExponent rest >>= _) = _
  rw [hrest.readExponent]
  simp only [Option.bind_eq_bind, Option.bind_some, hwhole]
  rfl

/-- A whole number of 64 bits is read back. -/
theorem readNumber_write (n : Policy.Number) {rest : List Char} (hrest : Ends rest) :
    readNumber (Decimal.write n.val ++ rest) = some (.whole n.val, rest) := by
  obtain ⟨i, hlow, hhigh⟩ := n
  cases i with
  | ofNat k =>
    have hwhole : wholeOf? false (Nat.toDigits 10 k) = some (k : Int) := by
      have hk : (k : Int) ≤ 9223372036854775807 := hhigh
      simp only [wholeOf?, Nat.ofDigitChars_ten_toDigits, Bool.false_eq_true, if_false]
      rw [if_pos (by simp [wordLimit]; omega)]
    show readNumber (Nat.toDigits 10 k ++ rest) = _
    unfold readNumber
    split
    · next heq =>
      have hminus : '-' ∈ Nat.toDigits 10 k := by
        obtain ⟨d, ds, hds⟩ := List.exists_cons_of_ne_nil (Nat.toDigits_ne_nil (b := 10) (n := k))
        rw [hds] at heq ⊢
        cases heq
        exact List.mem_cons_self
      exact absurd (isDigit_toDigits k _ hminus) (by decide)
    · exact readUnsigned_toDigits hrest hwhole
  | negSucc k =>
    have hwhole : wholeOf? true (Nat.toDigits 10 (k + 1)) = some (Int.negSucc k) := by
      simp only [wholeOf?, Nat.ofDigitChars_ten_toDigits, if_true]
      rw [if_pos (by simp; omega)]
      rfl
    exact readUnsigned_toDigits hrest hwhole

end Policy.Json
