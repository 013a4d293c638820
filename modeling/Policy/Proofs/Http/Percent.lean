import Policy.Http.Percent
import Policy.Json.Read

namespace Policy.Http.Percent

/-! ## Reading what is encoded -/

/-- The bytes that a part of a query stands for. A percent sign stands in front of two digits, and
all else stands for itself. -/
def bytes? : List Char → Option (List UInt8)
  | [] => some []
  | '%' :: high :: low :: cs => do
    let high ← Json.hexValue? high
    let low ← Json.hexValue? low
    let bytes ← bytes? cs
    pure (UInt8.ofNat (16 * high + low) :: bytes)
  | '%' :: _ => none
  | c :: cs => do
    let bytes ← bytes? cs
    pure (String.utf8EncodeChar c ++ bytes)

/-- The text that a part of a query stands for, if its bytes are a text. -/
def decode? (cs : List Char) : Option String :=
  bytes? cs >>= fun bytes => String.fromUTF8? bytes.toByteArray

theorem hexValue_hexDigit : ∀ n < 16, Json.hexValue? (hexDigit n) = some n := by
  decide

theorem bytes_encodeByte (b : UInt8) (cs : List Char) :
    bytes? (encodeByte b ++ cs) = (bytes? cs).map (b :: ·) := by
  have hb : b.toNat < 256 := b.toNat_lt_size
  have hvalue : 16 * (b.toNat / 16) + b.toNat % 16 = b.toNat := by omega
  simp only [encodeByte, List.cons_append, List.nil_append, bytes?,
    hexValue_hexDigit (b.toNat / 16) (by omega), hexValue_hexDigit (b.toNat % 16) (by omega),
    Option.bind_eq_bind, Option.bind_some, hvalue, UInt8.ofNat_toNat]
  cases bytes? cs with
  | none => rfl
  | some bytes => rfl

theorem bytes_encodeBytes (bs : List UInt8) (cs : List Char) :
    bytes? (bs.flatMap encodeByte ++ cs) = (bytes? cs).map (bs ++ ·) := by
  induction bs with
  | nil => simp
  | cons b bs ih =>
    rw [List.flatMap_cons, List.append_assoc, bytes_encodeByte, ih, Option.map_map]
    rfl

theorem bytes_of_ne {c : Char} (hc : c ≠ '%') (cs : List Char) :
    bytes? (c :: cs) = (bytes? cs).map (String.utf8EncodeChar c ++ ·) := by
  rw [bytes?]
  · cases bytes? cs with
    | none => rfl
    | some bytes => rfl
  · exact fun _ _ _ heq => absurd heq hc
  · exact fun heq => absurd heq hc

theorem bytes_encodeChar (c : Char) (cs : List Char) :
    bytes? (encodeChar c ++ cs) = (bytes? cs).map (String.utf8EncodeChar c ++ ·) := by
  rw [encodeChar]
  split
  · next hplain =>
    have hc : c ≠ '%' := by
      rintro rfl
      exact absurd hplain (by decide)
    exact bytes_of_ne hc cs
  · exact bytes_encodeBytes _ cs

theorem bytes_encode (cs : List Char) :
    bytes? (encode cs) = some (cs.flatMap String.utf8EncodeChar) := by
  induction cs with
  | nil => rfl
  | cons c cs ih =>
    rw [encode, List.flatMap_cons, bytes_encodeChar, ← encode, ih]
    rfl

theorem fromUTF8_utf8Encode (cs : List Char) :
    String.fromUTF8? cs.utf8Encode = some (String.ofList cs) := by
  rw [String.fromUTF8?, dif_pos ByteArray.isValidUTF8_utf8Encode]
  exact congrArg some (String.toByteArray_inj.mp String.toByteArray_ofList.symm)

/-- Every text is read back. -/
theorem decode_encode (text : String) : decode? (encode text.toList) = some text := by
  have hbytes : (text.toList.flatMap String.utf8EncodeChar).toByteArray =
      text.toList.utf8Encode := rfl
  rw [decode?, bytes_encode, Option.bind_eq_bind, Option.bind_some, hbytes, fromUTF8_utf8Encode,
    String.ofList_toList]

/-! ## Characters that are written -/

/-- The characters of what is encoded. Nothing that means something in a query is among them, nor
anything that ends a word or a line. -/
def isWritten (c : Char) : Bool := isPlain c || c = '%'

theorem isWritten_hexDigit : ∀ n < 16, isWritten (hexDigit n) = true := by
  decide

theorem isWritten_of_mem_encodeByte {b : UInt8} {c : Char} (h : c ∈ encodeByte b) :
    isWritten c = true := by
  have hb : b.toNat < 256 := b.toNat_lt_size
  simp only [encodeByte, List.mem_cons, List.not_mem_nil, or_false] at h
  rcases h with rfl | rfl | rfl
  · rfl
  · exact isWritten_hexDigit _ (by omega)
  · exact isWritten_hexDigit _ (by omega)

theorem isWritten_of_mem_encode {cs : List Char} {c : Char} (h : c ∈ encode cs) :
    isWritten c = true := by
  obtain ⟨d, -, h⟩ := List.mem_flatMap.mp h
  rw [encodeChar] at h
  split at h
  · next hplain =>
    rw [List.mem_singleton.mp h, isWritten, hplain]
    rfl
  · obtain ⟨b, -, h⟩ := List.mem_flatMap.mp h
    exact isWritten_of_mem_encodeByte h

end Policy.Http.Percent
