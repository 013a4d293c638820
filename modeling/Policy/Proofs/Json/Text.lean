import Policy.Json.Read
import Policy.Json.Write

namespace Policy.Json

/-! ## Strings -/

theorem hexValue_hexDigit : ∀ n < 16, hexValue? (hexDigit n) = some n := by
  decide

theorem hexUnit_control {n : Nat} (hn : n < 32) (rest : List Char) :
    hexUnit? ('0' :: '0' :: hexDigit (n / 16) :: hexDigit (n % 16) :: rest) = some (n, rest) := by
  have hhigh := hexValue_hexDigit (n / 16) (by omega)
  have hlow := hexValue_hexDigit (n % 16) (by omega)
  have hzero : hexValue? '0' = some 0 := rfl
  have hvalue : (((0 * 16 + 0) * 16 + n / 16) * 16 + n % 16) = n := by omega
  simp only [hexUnit?, hzero, hhigh, hlow, Option.bind_eq_bind, Option.bind_some, hvalue]
  rfl

section Escape

variable {room : Nat} {cs rest after : List Char}

theorem readChars_letter {l c : Char} (hl : letter? l = some c) (hu : l ≠ 'u')
    (h : readChars room rest = some (cs, after)) :
    readChars (room + 1) ('\\' :: l :: rest) = some (c :: cs, after) := by
  rw [readChars]
  · rw [hl, h]
    rfl
  · exact hu

theorem readChars_unit {unit : Nat} {front : List Char} {c : Char}
    (hunit : hexUnit? front = some (unit, rest)) (hc : unitChar? unit rest = some (c, rest))
    (h : readChars room rest = some (cs, after)) :
    readChars (room + 1) ('\\' :: 'u' :: front) = some (c :: cs, after) := by
  rw [readChars, hunit]
  show (unitChar? unit rest >>= _) = _
  rw [hc]
  show (readChars room rest >>= _) = _
  rw [h]
  rfl

theorem readChars_plain {c : Char} (hcontrol : 32 ≤ c.toNat) (hquote : c ≠ '"') (hslash : c ≠ '\\')
    (h : readChars room rest = some (cs, after)) :
    readChars (room + 1) (c :: rest) = some (c :: cs, after) := by
  rw [readChars]
  · rw [if_neg (by simp [hslash, hcontrol]), h]
    rfl
  · exact fun heq => hquote heq
  · exact fun _ heq => absurd heq hslash
  · exact fun _ _ heq => absurd heq hslash

/-- An escaped character is read as the character, and takes one of the room. -/
theorem readChars_escape (c : Char) (h : readChars room rest = some (cs, after)) :
    readChars (room + 1) (escape c ++ rest) = some (c :: cs, after) := by
  unfold escape
  split
  · exact readChars_letter rfl (by decide) h
  · exact readChars_letter rfl (by decide) h
  · exact readChars_letter rfl (by decide) h
  · exact readChars_letter rfl (by decide) h
  · exact readChars_letter rfl (by decide) h
  · exact readChars_letter rfl (by decide) h
  · exact readChars_letter rfl (by decide) h
  · next hquote hslash _ _ _ _ _ =>
    split
    · next hcontrol =>
      refine readChars_unit (hexUnit_control hcontrol rest) ?_ h
      unfold unitChar?
      rw [if_pos (by simp; omega), Char.ofNat_toNat]
    · next hplain =>
      exact readChars_plain (Nat.le_of_not_lt hplain) (fun heq => hquote heq)
        (fun heq => hslash heq) h

end Escape

/-- A quoted text is read back with room for its characters. -/
theorem readText_quote {text : String} {rest : List Char} {room : Nat}
    (hroom : text.toList.length ≤ room) :
    readText room (text.toList.flatMap escape ++ '"' :: rest) = some (text, rest) := by
  have hchars : ∀ (cs : List Char) (room : Nat), cs.length ≤ room →
      readChars room (cs.flatMap escape ++ '"' :: rest) = some (cs, rest) := by
    intro cs
    induction cs with
    | nil =>
      intro room _
      cases room with
      | zero => rfl
      | succ room => rfl
    | cons c cs ih =>
      intro room hroom
      obtain ⟨room, rfl⟩ : ∃ k, room = k + 1 := ⟨room - 1, by simp at hroom; omega⟩
      rw [List.flatMap_cons, List.append_assoc]
      exact readChars_escape c (ih room (Nat.le_of_succ_le_succ hroom))
  simp only [readText, hchars _ _ hroom, Option.bind_eq_bind, Option.bind_some,
    String.ofList_toList]
  rfl

end Policy.Json
