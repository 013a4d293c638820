import Policy.Http.Exchange
import Policy.Proofs.Json.Pretty

namespace Policy.Http

open Json Document

/-! ## Objects of values without layout -/

section Values

variable {length levels : Nat} {rest : List Char}

theorem readValue_writeValue (v : Value) (hrest : Ends rest)
    (hlength : ((writeValue v).compactChars ++ rest).length ≤ length) :
    readValue length levels ((writeValue v).compactChars ++ rest) = some (writeValue v, rest) := by
  cases v with
  | string text => exact readValue_string hlength
  | number n => exact readValue_number n hrest
  | truth b => exact readValue_bool b

/-- Named values as members, each for itself. -/
def members (params : List (String × Value)) : List (String × Json) :=
  params.map fun (name, v) => (name, writeValue v)

/-- The text behind the first member of an object without layout. -/
def behind (params : List (String × Value)) (rest : List Char) : List Char :=
  match params with
  | [] => '\x7d' :: rest
  | p :: params => ',' :: (compactMembers (members (p :: params)) ++ '\x7d' :: rest)

theorem ends_behind (params : List (String × Value)) (rest : List Char) :
    Ends (behind params rest) := by
  cases params with
  | nil => exact ends_brace rest
  | cons p params => exact ends_comma _

theorem compactMembers_cons (name : String) (v : Value) (params : List (String × Value))
    (rest : List Char) :
    compactMembers (members ((name, v) :: params)) ++ '\x7d' :: rest =
      quote name ++ ':' :: ((writeValue v).compactChars ++ behind params rest) := by
  cases params with
  | nil => simp [members, behind, compactMembers]
  | cons p params => simp [members, behind, compactMembers]

theorem length_le_compactMembers (params : List (String × Value)) :
    params.length ≤ (compactMembers (members params)).length := by
  induction params with
  | nil => exact Nat.zero_le _
  | cons p params ih =>
    obtain ⟨name, v⟩ := p
    have hshape := congrArg List.length (compactMembers_cons name v params [])
    cases params with
    | nil => simp [quote] at hshape ⊢; omega
    | cons q params =>
      simp only [behind, List.length_append, List.length_cons] at hshape ih ⊢
      omega

theorem readMembers_values (params : List (String × Value)) (hne : params ≠ []) (room : Nat)
    (hroom : params.length ≤ room)
    (hlength : (compactMembers (members params) ++ '\x7d' :: rest).length ≤ length) :
    readMembers length (readValue length levels) room
      (compactMembers (members params) ++ '\x7d' :: rest) = some (members params, rest) := by
  induction params generalizing room with
  | nil => exact absurd rfl hne
  | cons p params ih =>
    obtain ⟨name, v⟩ := p
    obtain ⟨room, rfl⟩ : ∃ k, room = k + 1 := ⟨room - 1, by simp at hroom; omega⟩
    rw [compactMembers_cons] at hlength ⊢
    have hvalue : readValue length levels ((writeValue v).compactChars ++ behind params rest) =
        some (writeValue v, behind params rest) := by
      apply readValue_writeValue v (ends_behind params rest)
      simp only [List.length_append, List.length_cons] at hlength ⊢
      omega
    rw [readMembers_name name (skipSpace_quote name _) hlength, hvalue]
    cases params with
    | nil => rfl
    | cons q params =>
      have hmore := ih (List.cons_ne_nil _ _) room (Nat.le_of_succ_le_succ hroom)
        (by simp only [behind, List.length_append, List.length_cons] at hlength ⊢; omega)
      show (readMembers length (readValue length levels) room
        (compactMembers (members (q :: params)) ++ '\x7d' :: rest) >>= _) = _
      rw [hmore]
      rfl

theorem readValue_members (params : List (String × Value))
    (hnodup : ((members params).map Prod.fst).Nodup)
    (hlength : ((Json.object (members params)).compactChars ++ rest).length ≤ length) :
    readValue length (levels + 1) ((Json.object (members params)).compactChars ++ rest) =
      some (.object (members params), rest) := by
  cases params with
  | nil => rfl
  | cons p ps =>
    obtain ⟨name, v⟩ := p
    have hshape : (Json.object (members ((name, v) :: ps))).compactChars ++ rest =
        '\x7b' :: (compactMembers (members ((name, v) :: ps)) ++ '\x7d' :: rest) := by
      rw [compactChars, List.cons_append, List.append_assoc]
      rfl
    rw [hshape, List.length_cons] at hlength
    have hroom : ((name, v) :: ps).length ≤ length := by
      have hle := length_le_compactMembers ((name, v) :: ps)
      rw [List.length_append] at hlength
      omega
    have hmembers : readMembers length (readValue length levels) length
        (compactMembers (members ((name, v) :: ps)) ++ '\x7d' :: rest) =
          some (members ((name, v) :: ps), rest) :=
      readMembers_values _ (List.cons_ne_nil _ _) length hroom (Nat.le_of_succ_le hlength)
    have hcollect := collect_of_nodup hnodup
    rw [compactMembers_cons, quote, List.cons_append] at hmembers
    rw [hshape, compactMembers_cons, quote, List.cons_append,
      readValue_object (skipSpace_cons (by decide)), hmembers]
    show some (Json.object (collect (members ((name, v) :: ps))), rest) = _
    rw [hcollect]

end Values

/-- An object of values without repeated names is read back. -/
theorem read_compact_members (params : List (String × Value))
    (hnodup : ((members params).map Prod.fst).Nodup) :
    Json.read (Json.object (members params)).compact = some (.object (members params)) := by
  let text := (Json.object (members params)).compactChars ++ []
  have hvalue : readValue text.length 127 text = some (.object (members params), []) :=
    readValue_members params hnodup (Nat.le_refl _)
  rw [Json.read, compact, String.toList_ofList, levelLimit]
  rw [← List.append_nil (Json.object (members params)).compactChars, hvalue]
  rfl

/-- What is sent for parameters is read back as an object of their values, in which each name comes
once, where it came up first and with the value that it was given last. -/
theorem read_content (params : List (String × Value)) :
    ∃ kept, Json.read (content params) = some (.object kept) ∧ Collected (members params) kept := by
  have hcollect : collect (members params) = members (collect params) :=
    collect_map writeValue params
  have hread := read_compact_members (collect params) (by
    rw [← hcollect]
    exact nodup_collect _)
  refine ⟨collect (members params), ?_, collected_collect _⟩
  rw [hcollect, ← hread]
  exact congrArg (fun ms => Json.read (Json.object ms).compact) hcollect

end Policy.Http
