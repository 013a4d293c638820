import Policy.Proofs.Json.Members
import Policy.Proofs.Json.Number
import Policy.Proofs.Json.Text

namespace Policy.Json

/-! ## Levels and plain documents -/

mutual

/-- The most arrays and objects of a document that are open at once. -/
def levels : Json → Nat
  | null | bool _ | number _ | string _ => 0
  | array items => itemLevels items + 1
  | object members => memberLevels members + 1

def itemLevels : List Json → Nat
  | [] => 0
  | x :: xs => max x.levels (itemLevels xs)

def memberLevels : List (String × Json) → Nat
  | [] => 0
  | (_, x) :: members => max x.levels (memberLevels members)

end

mutual

/-- Numbers are whole numbers of 64 bits, and no object has two members of one name. -/
def Plain : Json → Prop
  | null | bool _ | string _ => True
  | number n => ∃ m : Policy.Number, n = .whole m.val
  | array items => PlainItems items
  | object members => (members.map Prod.fst).Nodup ∧ PlainMembers members

def PlainItems : List Json → Prop
  | [] => True
  | x :: xs => x.Plain ∧ PlainItems xs

def PlainMembers : List (String × Json) → Prop
  | [] => True
  | (_, x) :: members => x.Plain ∧ PlainMembers members

end

/-! ## Layout -/

theorem skipSpace_newline (level : Nat) (cs : List Char) :
    skipSpace (newline level ++ cs) = skipSpace cs := by
  have hspace : ∀ c ∈ newline level, isSpace c := by
    intro c hc
    rcases List.mem_cons.mp hc with rfl | hc
    · rfl
    · rw [(List.mem_replicate.mp hc).2]
      rfl
  exact List.dropWhile_append_of_pos hspace

theorem skipSpace_cons {c : Char} {cs : List Char} (h : isSpace c = false) :
    skipSpace (c :: cs) = c :: cs :=
  List.dropWhile_cons_of_neg (by simp [h])

theorem skipSpace_quote (text : String) (cs : List Char) :
    skipSpace (quote text ++ cs) = quote text ++ cs :=
  skipSpace_cons (by decide)

/-- A value is read from the first character on that is not layout. -/
theorem readValue_of_skipSpace {cs ds : List Char} (length levels : Nat)
    (h : skipSpace cs = skipSpace ds) :
    readValue length levels cs = readValue length levels ds := by
  rw [readValue, readValue, h]

theorem readValue_newline (length levels level : Nat) (cs : List Char) :
    readValue length levels (newline level ++ cs) = readValue length levels cs :=
  readValue_of_skipSpace length levels (skipSpace_newline level cs)

theorem readValue_blank (length levels : Nat) (cs : List Char) :
    readValue length levels (' ' :: cs) = readValue length levels cs :=
  readValue_of_skipSpace length levels rfl

theorem isSpace_of_isDigit {c : Char} (h : isDigit c) : isSpace c = false := by
  cases hs : isSpace c with
  | false => rfl
  | true =>
    simp only [isSpace, Bool.or_eq_true, decide_eq_true_eq] at hs
    rcases hs with ((rfl | rfl) | rfl) | rfl
    · exact absurd h (by decide)
    · exact absurd h (by decide)
    · exact absurd h (by decide)
    · exact absurd h (by decide)

/-- A value starts with a character that neither is layout nor closes an array. -/
theorem head_prettyChars (level : Nat) {x : Json} (hx : x.Plain) :
    ∃ c cs, prettyChars level x = c :: cs ∧ isSpace c = false ∧ c ≠ ']' := by
  cases x with
  | null => exact ⟨_, _, rfl, rfl, by decide⟩
  | bool b =>
    cases b with
    | true => exact ⟨_, _, rfl, rfl, by decide⟩
    | false => exact ⟨_, _, rfl, rfl, by decide⟩
  | number n =>
    obtain ⟨⟨i, hi⟩, rfl⟩ := hx
    cases i with
    | ofNat k =>
      obtain ⟨d, ds, hds⟩ := List.exists_cons_of_ne_nil (Nat.toDigits_ne_nil (b := 10) (n := k))
      have hd := isDigit_toDigits k d (by rw [hds]; exact List.mem_cons_self)
      refine ⟨d, ds, hds, isSpace_of_isDigit hd, ?_⟩
      rintro rfl
      exact absurd hd (by decide)
    | negSucc k => exact ⟨'-', _, rfl, rfl, by decide⟩
  | string text => exact ⟨_, _, rfl, rfl, by decide⟩
  | array items =>
    cases items with
    | nil => exact ⟨_, _, rfl, rfl, by decide⟩
    | cons x xs => exact ⟨_, _, rfl, rfl, by decide⟩
  | object members =>
    cases members with
    | nil => exact ⟨_, _, rfl, rfl, by decide⟩
    | cons m members => exact ⟨_, _, rfl, rfl, by decide⟩

/-! ## Values -/

theorem length_le_escape (cs : List Char) : cs.length ≤ (cs.flatMap escape).length := by
  induction cs with
  | nil => exact Nat.le_refl _
  | cons c cs ih =>
    have hpos : 0 < (escape c).length := by
      unfold escape
      split <;> first | exact Nat.succ_pos _ | (split <;> exact Nat.succ_pos _)
    rw [List.flatMap_cons, List.length_append, List.length_cons]
    omega

theorem readText_of_quote (text : String) (rest : List Char) {length : Nat}
    (hlength : (quote text ++ rest).length ≤ length) :
    ∃ cs, quote text ++ rest = '"' :: cs ∧ readText length cs = some (text, rest) := by
  refine ⟨text.toList.flatMap escape ++ '"' :: rest, ?_, ?_⟩
  · rw [quote, List.cons_append, List.append_assoc]
    rfl
  · apply readText_quote
    have hescape := length_le_escape text.toList
    simp only [quote, List.cons_append, List.length_cons, List.length_append] at hlength
    omega

section Leaves

variable {length levels : Nat} {rest : List Char}

theorem readValue_string {text : String} (hlength : (quote text ++ rest).length ≤ length) :
    readValue length levels (quote text ++ rest) = some (string text, rest) := by
  obtain ⟨cs, hcs, hread⟩ := readText_of_quote text rest hlength
  have hvalue : readValue length levels ('"' :: cs) =
      readText length cs >>= fun found => pure (string found.1, found.2) := by
    cases levels with
    | zero => rfl
    | succ levels => rfl
  rw [hcs, hvalue, hread]
  rfl

theorem readValue_bool (b : Bool) :
    readValue length levels (writeBool b ++ rest) = some (bool b, rest) := by
  cases levels with
  | zero =>
    cases b with
    | true => rfl
    | false => rfl
  | succ levels =>
    cases b with
    | true => rfl
    | false => rfl

theorem readValue_null :
    readValue length levels (['n', 'u', 'l', 'l'] ++ rest) = some (null, rest) := by
  cases levels with
  | zero => rfl
  | succ levels => rfl

theorem readValue_signed {c : Char} {cs : List Char} (hc : c = '-' ∨ isDigit c) {n : Number}
    (h : readNumber (c :: cs) = some (n, rest)) :
    readValue length levels (c :: cs) = some (number n, rest) := by
  have hne : ∀ d, d ≠ '-' → isDigit d = false → c ≠ d := by
    rintro d hminus hdigit rfl
    rcases hc with hc | hc
    · exact hminus hc
    · rw [hdigit] at hc
      cases hc
  have hspace : isSpace c = false := by
    rcases hc with rfl | hc
    · rfl
    · exact isSpace_of_isDigit hc
  rw [readValue, skipSpace_cons hspace]
  split
  · next heq => exact absurd (List.cons.inj heq).1 (hne _ (by decide) (by decide))
  · next heq => exact absurd (List.cons.inj heq).1 (hne _ (by decide) (by decide))
  · next heq => exact absurd (List.cons.inj heq).1 (hne _ (by decide) (by decide))
  · next heq => exact absurd (List.cons.inj heq).1 (hne _ (by decide) (by decide))
  · next heq => exact absurd (List.cons.inj heq).1 (hne _ (by decide) (by decide))
  · next heq => exact absurd (List.cons.inj heq).1 (hne _ (by decide) (by decide))
  · rw [h]
    rfl

theorem readValue_number (n : Policy.Number) (hrest : Ends rest) :
    readValue length levels (Decimal.write n.val ++ rest) = some (number (.whole n.val), rest) := by
  have hnumber := readNumber_write n hrest
  obtain ⟨i, hi⟩ := n
  cases i with
  | ofNat k =>
    obtain ⟨d, ds, hds⟩ := List.exists_cons_of_ne_nil (Nat.toDigits_ne_nil (b := 10) (n := k))
    have hd := isDigit_toDigits k d (by rw [hds]; exact List.mem_cons_self)
    simp only [Decimal.write, hds] at hnumber ⊢
    exact readValue_signed (.inr hd) hnumber
  | negSucc k => exact readValue_signed (.inl rfl) hnumber

end Leaves

section Nodes

variable {length levels : Nat} {rest : List Char}

theorem readValue_array {c : Char} {cs : List Char} (hspace : isSpace c = false) (hc : c ≠ ']')
    (level : Nat) :
    readValue length (levels + 1) ('[' :: (newline level ++ c :: cs)) =
      (readItems (readValue length levels) length (newline level ++ c :: cs)).map
        fun (xs, rest) => (array xs, rest) := by
  rw [readValue, skipSpace_cons (by decide)]
  simp only [skipSpace_newline, skipSpace_cons hspace]
  split
  · next heq => exact absurd (List.cons.inj heq).1 hc
  · cases readItems (readValue length levels) length (newline level ++ c :: cs) with
    | none => rfl
    | some found => rfl

theorem readValue_array_zero (cs : List Char) : readValue length 0 ('[' :: cs) = none := rfl

theorem readValue_object_zero (cs : List Char) : readValue length 0 ('\x7b' :: cs) = none := rfl

theorem readValue_object {cs ds : List Char} (h : skipSpace cs = '"' :: ds) :
    readValue length (levels + 1) ('\x7b' :: cs) =
      (readMembers length (readValue length levels) length cs).map
        fun (members, rest) => (object (collect members), rest) := by
  rw [readValue, skipSpace_cons (by decide)]
  simp only [h]
  cases readMembers length (readValue length levels) length cs with
  | none => rfl
  | some found => rfl

/-- A member, up to its value. -/
theorem readMembers_name {room : Nat} {value : List Char → Option (Json × List Char)}
    {cs : List Char} (name : String) (h : skipSpace cs = quote name ++ ':' :: rest)
    (hlength : cs.length ≤ length) :
    readMembers length value (room + 1) cs =
      (value rest >>= fun (x, rest) =>
        match skipSpace rest with
        | ',' :: rest => do
          let (members, rest) ← readMembers length value room rest
          pure ((name, x) :: members, rest)
        | '\x7d' :: rest => pure ([(name, x)], rest)
        | _ => none) := by
  have hskipped : (skipSpace cs).length ≤ cs.length :=
    (List.dropWhile_sublist _).length_le
  have hquoted : (quote name ++ ':' :: rest).length ≤ length := by
    rw [← h]
    omega
  obtain ⟨ds, hds, hname⟩ := readText_of_quote name (':' :: rest) hquoted
  rw [readMembers, h, hds]
  show (readText length ds >>= _) = _
  rw [hname]
  rfl

end Nodes

/-! ## Documents -/

/-- The text behind the first item of an array. -/
def itemsBehind (level close : Nat) (xs : List Json) (rest : List Char) : List Char :=
  match xs with
  | [] => newline close ++ ']' :: rest
  | x :: xs => ',' :: (prettyItems level (x :: xs) ++ (newline close ++ ']' :: rest))

theorem prettyItems_cons (level close : Nat) (x : Json) (xs : List Json) (rest : List Char) :
    prettyItems level (x :: xs) ++ (newline close ++ ']' :: rest) =
      newline level ++ (prettyChars level x ++ itemsBehind level close xs rest) := by
  cases xs with
  | nil => simp only [prettyItems, itemsBehind, List.append_assoc]
  | cons y ys => simp only [prettyItems, itemsBehind, List.append_assoc, List.cons_append]

theorem ends_itemsBehind (level close : Nat) (xs : List Json) (rest : List Char) :
    Ends (itemsBehind level close xs rest) := by
  cases xs with
  | nil => exact ends_newline _ _
  | cons x xs => exact ends_comma _

/-- The text behind the first member of an object. -/
def membersBehind (level close : Nat) (ms : List (String × Json)) (rest : List Char) : List Char :=
  match ms with
  | [] => newline close ++ '\x7d' :: rest
  | m :: ms => ',' :: (prettyMembers level (m :: ms) ++ (newline close ++ '\x7d' :: rest))

theorem prettyMembers_cons (level close : Nat) (name : String) (x : Json)
    (ms : List (String × Json)) (rest : List Char) :
    prettyMembers level ((name, x) :: ms) ++ (newline close ++ '\x7d' :: rest) =
      newline level ++ (quote name ++ ':' :: ' ' ::
        (prettyChars level x ++ membersBehind level close ms rest)) := by
  cases ms with
  | nil => simp only [prettyMembers, membersBehind, List.append_assoc, List.cons_append]
  | cons m ms => simp only [prettyMembers, membersBehind, List.append_assoc, List.cons_append]

theorem ends_membersBehind (level close : Nat) (ms : List (String × Json)) (rest : List Char) :
    Ends (membersBehind level close ms rest) := by
  cases ms with
  | nil => exact ends_newline _ _
  | cons m ms => exact ends_comma _

theorem length_le_prettyItems (level : Nat) (xs : List Json) :
    xs.length ≤ (prettyItems level xs).length := by
  induction xs with
  | nil => exact Nat.zero_le _
  | cons x xs ih =>
    cases xs with
    | nil =>
      simp only [prettyItems, newline, List.cons_append, List.length_cons, List.length_nil]
      omega
    | cons y ys =>
      simp only [prettyItems, newline, List.cons_append, List.length_cons, List.length_append]
        at ih ⊢
      omega

theorem length_le_prettyMembers (level : Nat) (ms : List (String × Json)) :
    ms.length ≤ (prettyMembers level ms).length := by
  induction ms with
  | nil => exact Nat.zero_le _
  | cons m ms ih =>
    obtain ⟨name, x⟩ := m
    cases ms with
    | nil =>
      simp only [prettyMembers, newline, List.cons_append, List.length_cons, List.length_nil]
      omega
    | cons m' ms =>
      simp only [prettyMembers, newline, List.cons_append, List.length_cons, List.length_append]
        at ih ⊢
      omega

mutual

/-- The text of a plain document is read back if its levels are within the limit, and else not
read at all. -/
theorem readValue_pretty (x : Json) (hx : x.Plain) (length levels level : Nat) {rest : List Char}
    (hrest : Ends rest) (hlength : (prettyChars level x ++ rest).length ≤ length) :
    readValue length levels (prettyChars level x ++ rest) =
      if x.levels ≤ levels then some (x, rest) else none := by
  cases x with
  | null => exact readValue_null
  | bool b => exact readValue_bool b
  | number n =>
    obtain ⟨m, rfl⟩ := hx
    exact readValue_number m hrest
  | string text => exact readValue_string hlength
  | array items =>
    have hitems := readItems_pretty items hx
    have hmax : (array items).levels = itemLevels items + 1 := rfl
    cases items with
    | nil =>
      cases levels with
      | zero => exact readValue_array_zero _
      | succ levels => rfl
    | cons y ys =>
      have hshape : prettyChars level (array (y :: ys)) ++ rest =
          '[' :: (prettyItems (level + 1) (y :: ys) ++ (newline level ++ ']' :: rest)) := by
        simp only [prettyChars, List.cons_append, List.append_assoc, List.nil_append]
      rw [hshape] at hlength ⊢
      cases levels with
      | zero => rw [readValue_array_zero, if_neg (by omega)]
      | succ levels =>
        have hroom := length_le_prettyItems (level + 1) (y :: ys)
        rw [List.length_cons, List.length_append] at hlength
        have hitems := hitems (List.cons_ne_nil _ _) length levels (level + 1) level length rest
          (by omega) (by rw [List.length_append]; omega)
        obtain ⟨c, cs, hc, hspace, hne⟩ := head_prettyChars (level + 1) hx.1
        rw [prettyItems_cons, hc, List.cons_append] at hitems ⊢
        rw [readValue_array hspace hne, hitems]
        by_cases hlevels : itemLevels (y :: ys) ≤ levels
        · rw [if_pos hlevels, if_pos (by omega)]
          rfl
        · rw [if_neg hlevels, if_neg (by omega)]
          rfl
  | object members =>
    have hmembers := readMembers_pretty members hx.2
    have hmax : (object members).levels = memberLevels members + 1 := rfl
    have hcollect := collect_of_nodup hx.1
    cases members with
    | nil =>
      cases levels with
      | zero => exact readValue_object_zero _
      | succ levels => rfl
    | cons m ms =>
      obtain ⟨name, y⟩ := m
      have hshape : prettyChars level (object ((name, y) :: ms)) ++ rest =
          '\x7b' :: (prettyMembers (level + 1) ((name, y) :: ms) ++
            (newline level ++ '\x7d' :: rest)) := by
        simp only [prettyChars, List.cons_append, List.append_assoc, List.nil_append]
      rw [hshape] at hlength ⊢
      cases levels with
      | zero => rw [readValue_object_zero, if_neg (by omega)]
      | succ levels =>
        have hroom := length_le_prettyMembers (level + 1) ((name, y) :: ms)
        rw [List.length_cons, List.length_append] at hlength
        have hmembers := hmembers (List.cons_ne_nil _ _) length levels (level + 1) level length
          rest (by omega) (by rw [List.length_append]; omega)
        rw [prettyMembers_cons] at hmembers ⊢
        rw [readValue_object ((skipSpace_newline _ _).trans (skipSpace_quote name _)), hmembers]
        by_cases hlevels : memberLevels ((name, y) :: ms) ≤ levels
        · rw [if_pos hlevels, if_pos (by omega)]
          show some (object (collect ((name, y) :: ms)), rest) = _
          rw [hcollect]
        · rw [if_neg hlevels, if_neg (by omega)]
          rfl

theorem readItems_pretty (xs : List Json) (hxs : PlainItems xs) (hne : xs ≠ [])
    (length levels level close room : Nat) (rest : List Char) (hroom : xs.length ≤ room)
    (hlength : (prettyItems level xs ++ (newline close ++ ']' :: rest)).length ≤ length) :
    readItems (readValue length levels) room
        (prettyItems level xs ++ (newline close ++ ']' :: rest)) =
      if itemLevels xs ≤ levels then some (xs, rest) else none := by
  cases xs with
  | nil => exact absurd rfl hne
  | cons x xs =>
    obtain ⟨room, rfl⟩ : ∃ k, room = k + 1 := ⟨room - 1, by simp at hroom; omega⟩
    rw [prettyItems_cons] at hlength ⊢
    have hbehind := ends_itemsBehind level close xs rest
    have hvalue := readValue_pretty x hxs.1 length levels level hbehind
      (by rw [List.length_append] at hlength; omega)
    have hmore := readItems_pretty xs hxs.2
    have hmax : itemLevels (x :: xs) = max x.levels (itemLevels xs) := rfl
    by_cases hlevels : x.levels ≤ levels
    · rw [readItems, readValue_newline, hvalue, if_pos hlevels]
      cases xs with
      | nil =>
        rw [if_pos (by rw [hmax]; simp [itemLevels, hlevels])]
        show (match skipSpace (newline close ++ ']' :: rest) with
          | ',' :: rest => _
          | ']' :: rest => pure ([x], rest)
          | _ => none) = _
        rw [skipSpace_newline, skipSpace_cons (by decide)]
        rfl
      | cons y ys =>
        have hmore := hmore (List.cons_ne_nil _ _) length levels level close room rest
          (Nat.le_of_succ_le_succ hroom)
          (by simp only [itemsBehind, List.length_append, List.length_cons] at hlength ⊢; omega)
        show (readItems (readValue length levels) room
          (prettyItems level (y :: ys) ++ (newline close ++ ']' :: rest)) >>= _) = _
        rw [hmore]
        by_cases hrest : itemLevels (y :: ys) ≤ levels
        · rw [if_pos hrest, if_pos (by omega)]
          rfl
        · rw [if_neg hrest, if_neg (by omega)]
          rfl
    · rw [readItems, readValue_newline, hvalue, if_neg hlevels, if_neg (by omega)]
      rfl

theorem readMembers_pretty (ms : List (String × Json)) (hms : PlainMembers ms) (hne : ms ≠ [])
    (length levels level close room : Nat) (rest : List Char) (hroom : ms.length ≤ room)
    (hlength : (prettyMembers level ms ++ (newline close ++ '\x7d' :: rest)).length ≤ length) :
    readMembers length (readValue length levels) room
        (prettyMembers level ms ++ (newline close ++ '\x7d' :: rest)) =
      if memberLevels ms ≤ levels then some (ms, rest) else none := by
  match ms, hms with
  | [], _ => exact absurd rfl hne
  | (name, x) :: ms, hms =>
    obtain ⟨room, rfl⟩ : ∃ k, room = k + 1 := ⟨room - 1, by simp at hroom; omega⟩
    rw [prettyMembers_cons] at hlength ⊢
    have hbehind := ends_membersBehind level close ms rest
    have hvalue := readValue_pretty x hms.1 length levels level hbehind
      (by simp only [List.length_append, List.length_cons] at hlength ⊢; omega)
    have hmore := readMembers_pretty ms hms.2
    have hmax : memberLevels ((name, x) :: ms) = max x.levels (memberLevels ms) := rfl
    rw [readMembers_name name ((skipSpace_newline _ _).trans (skipSpace_quote name _)) hlength,
      readValue_blank, hvalue]
    by_cases hlevels : x.levels ≤ levels
    · rw [if_pos hlevels]
      cases ms with
      | nil =>
        rw [if_pos (by rw [hmax]; simp [memberLevels, hlevels])]
        show (match skipSpace (newline close ++ '\x7d' :: rest) with
          | ',' :: rest => _
          | '\x7d' :: rest => pure ([(name, x)], rest)
          | _ => none) = _
        rw [skipSpace_newline, skipSpace_cons (by decide)]
        rfl
      | cons m ms =>
        have hmore := hmore (List.cons_ne_nil _ _) length levels level close room rest
          (Nat.le_of_succ_le_succ hroom)
          (by simp only [membersBehind, List.length_append, List.length_cons] at hlength ⊢; omega)
        show (readMembers length (readValue length levels) room
          (prettyMembers level (m :: ms) ++ (newline close ++ '\x7d' :: rest)) >>= _) = _
        rw [hmore]
        by_cases hrest : memberLevels (m :: ms) ≤ levels
        · rw [if_pos hrest, if_pos (by omega)]
          rfl
        · rw [if_neg hrest, if_neg (by omega)]
          rfl
    · rw [if_neg hlevels, if_neg (by omega)]
      rfl

end

/-- A document on lines of its own is read back exactly if its levels are within the limit. -/
theorem read_pretty {x : Json} (hx : x.Plain) :
    read (x.pretty ++ "\n") = if x.levels ≤ levelLimit then some x else none := by
  have hchars : (x.pretty ++ "\n").toList = prettyChars 0 x ++ newline 0 := by
    rw [String.toList_append, pretty, String.toList_ofList]
    rfl
  have hvalue := readValue_pretty x hx (prettyChars 0 x ++ newline 0).length levelLimit 0
    (ends_newline 0 []) (Nat.le_of_eq (by rw [List.append_nil]))
  rw [List.append_nil] at hvalue
  simp only [read, hchars, hvalue]
  by_cases hlevels : x.levels ≤ levelLimit
  · rw [if_pos hlevels, if_pos hlevels]
    rfl
  · rw [if_neg hlevels, if_neg hlevels]

end Policy.Json
