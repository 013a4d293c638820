import Policy.Proofs.Source.Reads

namespace Policy.Source

/-- Tokens that go on with the term or condition in front of them. -/
def Token.joins : Token → Bool
  | .mark .plus | .mark .minus | .mark .star | .mark .slash => true
  | .keyword .matching | .keyword .and | .keyword .or => true
  | _ => false

theorem factorSign_of_joins {t : Token} (h : t.joins = false) : factorSign? t = none := by
  unfold factorSign?
  split
  · cases h
  · cases h
  · rfl

theorem addendSign_of_joins {t : Token} (h : t.joins = false) : addendSign? t = none := by
  unfold addendSign?
  split
  · cases h
  · cases h
  · rfl

theorem conjunction_of_joins {t : Token} (h : t.joins = false) : conjunction? t = none := by
  unfold conjunction?
  split
  · cases h
  · rfl

theorem disjunction_of_joins {t : Token} (h : t.joins = false) : disjunction? t = none := by
  unfold disjunction?
  split
  · cases h
  · rfl

section Term

variable {inner : Reader (Term String)} {ts more : List Token} {t : Term String}

theorem reads_subject (h : Reads (readSum inner) ts more t)
    (hmore : next more ≠ .keyword .matching) : Reads (readTermOver inner) ts more t := by
  intro located hl
  obtain ⟨rest, hr, hx⟩ := h located hl
  refine ⟨rest, hr, ?_⟩
  have hpeek := peek_eq_next hr
  simp only [readTermOver, hx, ok_bind]
  split
  · exact absurd hpeek.symm hmore
  · rfl

/-- A sum that is not matched against a pattern. -/
theorem reads_sum (h : Reads (readSum inner) ts more t) (hmore : (next more).joins = false) :
    Reads (readTermOver inner) ts more t := by
  refine reads_subject h fun hnext => ?_
  rw [hnext] at hmore
  cases hmore

theorem reads_matching {mid : List Token} {subject pattern : Term String}
    (hsubject : Reads (readSum inner) ts (.keyword .matching :: mid) subject)
    (hpattern : Reads (readSum inner) mid more pattern) :
    Reads (readTermOver inner) ts more (.binary .regex subject pattern) := by
  intro located hl
  obtain ⟨middle, hm, hx⟩ := hsubject located hl
  obtain ⟨p, behind, rfl, hbehind⟩ := exists_of_map_cons hm
  obtain ⟨rest, hr, hy⟩ := hpattern behind hbehind
  refine ⟨rest, hr, ?_⟩
  simp only [readTermOver, hx, ok_bind, hy]
  rfl

theorem reads_atom (h : Reads (readAtom inner) ts more t) (hmore : (next more).joins = false) :
    Reads (readTermOver inner) ts more t :=
  reads_sum ((h.chain (factorSign_of_joins hmore)).chain (addendSign_of_joins hmore)) hmore

/-- A term in parentheses is an atom. -/
theorem reads_paren (h : Reads inner (ts ++ .mark .rparen :: more) (.mark .rparen :: more) t) :
    Reads (readAtom inner) (parens ts ++ more) more t := by
  intro located hl
  rw [parens_append] at hl
  obtain ⟨p, located, rfl, hinner⟩ := exists_of_map_cons hl
  obtain ⟨rest, hr, hx⟩ := h located hinner
  obtain ⟨rest, hr, hparen⟩ := expectMark_of_map "')'" hr
  exact ⟨rest, hr, by simp only [readAtom, hx, ok_bind, hparen]; rfl⟩

/-- Two atoms with an operator between them. -/
theorem reads_binary {mid : List Token} {lhs rhs : Term String} (op : Operator)
    (hlhs : Reads (readAtom inner) ts (op.token :: mid) lhs)
    (hrhs : Reads (readAtom inner) mid more rhs) (hmore : (next more).joins = false) :
    Reads (readTermOver inner) ts more (.binary op lhs rhs) := by
  have hfactor := factorSign_of_joins hmore
  have haddend := addendSign_of_joins hmore
  cases op with
  | plus | minus =>
    exact reads_sum ((hlhs.chain rfl).chain_two rfl (hrhs.chain hfactor) haddend) hmore
  | times | divide =>
    exact reads_sum ((hlhs.chain_two rfl hrhs hfactor).chain haddend) hmore
  | regex =>
    have hsubject : Reads (readSum inner) ts (Operator.regex.token :: mid) lhs :=
      (hlhs.chain rfl).chain rfl
    have hpattern : Reads (readSum inner) mid more rhs := (hrhs.chain hfactor).chain haddend
    exact reads_matching hsubject hpattern

/-! ### Calls -/

theorem parameter_of_map {located : List Located} {name ref : String} {ts : List Token}
    (h : located.map (·.token) = .name name :: .mark .eq :: .name ref :: ts) :
    ∃ p rest, rest.map (·.token) = ts ∧ parameter? located = some (name, p, ref, rest) := by
  obtain ⟨p, front, rfl, hfront⟩ := exists_of_map_cons h
  obtain ⟨q, middle, rfl, hmiddle⟩ := exists_of_map_cons hfront
  obtain ⟨r, rest, rfl, hrest⟩ := exists_of_map_cons hmiddle
  exact ⟨q, rest, hrest, rfl⟩

/-- Tokens that neither start a parameter of a call nor stand between two of them. -/
def Token.endsCall : Token → Bool
  | .name _ | .mark .comma => false
  | _ => true

theorem parameter_of_endsCall {located : List Located} (h : (peek located).endsCall = true) :
    parameter? located = none := by
  unfold parameter?
  split
  · cases h
  · rfl

/-- By induction on the parameters, none of which may have been seen before. -/
theorem reads_parameters {params : List (String × String)} {seen : List String} {room : Nat}
    (hnodup : (params.map Prod.fst).Nodup) (hseen : ∀ p ∈ params, p.1 ∉ seen)
    (hroom : params.length ≤ room) (hmore : (next more).endsCall = true) :
    Reads (readParameters room seen) ((paramTokens params).tail ++ more) more params := by
  induction params generalizing seen room with
  | nil =>
    intro located hl
    refine ⟨located, hl, ?_⟩
    cases room with
    | zero => rfl
    | succ room =>
      have hends : (peek located).endsCall = true := (congrArg _ (peek_eq_next hl)).trans hmore
      simp only [readParameters, parameter_of_endsCall hends]
  | cons p params ih =>
    obtain ⟨name, ref⟩ := p
    obtain ⟨hfresh, hseen⟩ := List.forall_mem_cons.mp hseen
    obtain ⟨hname, hnodup⟩ := List.nodup_cons.mp hnodup
    obtain ⟨room, rfl⟩ : ∃ k, room = k + 1 := ⟨room - 1, by simp at hroom; omega⟩
    intro located hl
    obtain ⟨p, rest, hr, hparam⟩ := parameter_of_map hl
    have hcontains : seen.contains name = false := by simpa using hfresh
    cases params with
    | nil =>
      refine ⟨rest, hr, ?_⟩
      have hends : (peek rest).endsCall = true := (congrArg _ (peek_eq_next hr)).trans hmore
      have hcomma : peek rest ≠ .mark .comma := by
        intro hcomma
        rw [hcomma] at hends
        cases hends
      simp only [readParameters, hparam, hcontains, hcomma, decide_false, Bool.false_and]
      rfl
    | cons p' params =>
      obtain ⟨q, rest, rfl, htail⟩ := exists_of_map_cons hr
      obtain ⟨r, after, -, hsome⟩ := parameter_of_map htail
      have hrest : ∀ p ∈ p' :: params, p.1 ∉ name :: seen := by
        intro p hp hmem
        rcases List.mem_cons.mp hmem with heq | hmem
        · rw [← heq] at hname
          exact hname (List.mem_map.mpr ⟨p, hp, rfl⟩)
        · exact hseen p hp hmem
      obtain ⟨rest', hr', hx⟩ := ih hnodup hrest (by simpa using hroom) rest htail
      refine ⟨rest', hr', ?_⟩
      simp only [readParameters, hparam, hcontains, peek, List.tail_cons, hsome, hx]
      rfl

theorem length_paramTokens (params : List (String × String)) :
    (paramTokens params).length = 4 * params.length := by
  induction params with
  | nil => rfl
  | cons p params ih =>
    simp only [paramTokens, List.length_cons, ih]
    omega

theorem reads_call {url : String} {method : Method} {params : List (String × String)}
    (hnodup : (params.map Prod.fst).Nodup) (hmore : (next more).endsCall = true) :
    Reads (readAtom inner) ((Term.rest url method params).tokens ++ more) more
      (.rest url method params) := by
  intro located hl
  obtain ⟨p, front, rfl, hfront⟩ := exists_of_map_cons hl
  obtain ⟨q, middle, rfl, hmiddle⟩ := exists_of_map_cons hfront
  have hroom : params.length ≤ middle.length := by
    have hmiddle : middle.map (·.token) = (paramTokens params).tail ++ more := hmiddle
    have hlength := congrArg List.length hmiddle
    rw [List.length_map, List.length_append, List.length_tail, length_paramTokens] at hlength
    omega
  obtain ⟨rest, hr, hx⟩ := reads_parameters hnodup (fun p _ => List.not_mem_nil) hroom hmore
    middle hmiddle
  refine ⟨rest, hr, ?_⟩
  simp only [readAtom, readCall, readString, ok_bind, hx]
  rfl

/-! ### All terms -/

/-- A term in parentheses, read as a term of its own. -/
theorem reads_parens {most depth room : Nat} (hdepth : depth < most)
    (h : Reads (readTermAt (some most) room (depth + 1)) (ts ++ .mark .rparen :: more)
      (.mark .rparen :: more) t) (hmore : (next more).joins = false) :
    Reads (readTermAt (some most) (room + 1) depth) (parens ts ++ more) more t :=
  reads_atom (reads_paren (h.nested hdepth)) hmore

theorem reads_coerce {operand : Term String} (kind : Kind) (h : Reads inner ts more operand) :
    Reads (readAtom inner) (.keyword kind.keyword :: ts) more (.coerce operand kind) := by
  cases kind with
  | string => exact (h.map (Term.coerce · .string)).behind fun _ _ => rfl
  | number => exact (h.map (Term.coerce · .number)).behind fun _ _ => rfl

end Term

/-- A printed term in front of the parenthesis that closes it. By induction on the term: every
level that opens takes one of the room and one of the depth. -/
theorem reads_term {t : Term String} (hw : t.WellFormed) {most depth room : Nat}
    (hdepth : depth + t.nesting ≤ most) (hroom : t.nesting < room) {more : List Token}
    (hmore : next more = .mark .rparen) :
    Reads (readTermAt (some most) room depth) (t.tokens ++ more) more t := by
  have hjoins : (next more).joins = false := by rw [hmore]; rfl
  induction t generalizing depth room more with
  | string text | number n | attr ref =>
    obtain ⟨room, rfl⟩ : ∃ k, room = k + 1 := ⟨room - 1, by omega⟩
    refine reads_atom (fun located hl => ?_) hjoins
    obtain ⟨p, rest, rfl, hr⟩ := exists_of_map_cons hl
    exact ⟨rest, hr, rfl⟩
  | coerce operand kind ih =>
    simp only [Term.nesting] at hdepth hroom
    obtain ⟨room, rfl⟩ : ∃ k, room = k + 2 := ⟨room - 2, by omega⟩
    have hoperand : Reads (readTermAt (some most) room (depth + 2))
        (operand.tokens ++ .mark .rparen :: more) (.mark .rparen :: more) operand :=
      ih hw (by omega) (by omega) rfl rfl
    have hparens := reads_parens (by omega) hoperand hjoins
    exact reads_atom (reads_coerce kind (hparens.nested (by omega))) hjoins
  | binary op lhs rhs ihl ihr =>
    simp only [Term.nesting] at hdepth hroom
    obtain ⟨room, rfl⟩ : ∃ k, room = k + 1 := ⟨room - 1, by omega⟩
    have hlhs : Reads (readTermAt (some most) room (depth + 1))
        (lhs.tokens ++ .mark .rparen :: op.token :: (parens rhs.tokens ++ more))
        (.mark .rparen :: op.token :: (parens rhs.tokens ++ more)) lhs :=
      ihl hw.1 (by omega) (by omega) rfl rfl
    have hrhs : Reads (readTermAt (some most) room (depth + 1))
        (rhs.tokens ++ .mark .rparen :: more) (.mark .rparen :: more) rhs :=
      ihr hw.2 (by omega) (by omega) rfl rfl
    rw [Term.tokens, List.append_assoc, List.cons_append]
    exact reads_binary op (reads_paren (hlhs.nested (by omega)))
      (reads_paren (hrhs.nested (by omega))) hjoins
  | request key =>
    obtain ⟨room, rfl⟩ : ∃ k, room = k + 1 := ⟨room - 1, by omega⟩
    refine reads_atom (fun located hl => ?_) hjoins
    obtain ⟨p, front, rfl, hfront⟩ := exists_of_map_cons hl
    obtain ⟨q, rest, rfl, hr⟩ := exists_of_map_cons hfront
    exact ⟨rest, hr, rfl⟩
  | rest url method params =>
    obtain ⟨room, rfl⟩ : ∃ k, room = k + 1 := ⟨room - 1, by omega⟩
    exact reads_atom (reads_call hw.1 (by rw [hmore]; rfl)) hjoins

theorem term_nesting_le_length (t : Term String) : t.nesting ≤ t.tokens.length := by
  induction t with
  | coerce operand kind ih | binary op lhs rhs ihl ihr =>
    simp only [Term.nesting, Term.tokens, parens, List.length_cons, List.length_append,
      List.length_nil]
    omega
  | _ => exact Nat.zero_le _

/-- An operand of a comparison, or the value of an attribute. -/
theorem readTerm_parens {t : Term String} (hw : t.WellFormed) {most depth : Nat}
    (hdepth : depth + 1 + t.nesting ≤ most) {more : List Token}
    (hmore : (next more).joins = false) :
    Reads (readTerm (some most) depth) (parens t.tokens ++ more) more t := by
  refine reads_of_room (fun room => readTermAt (some most) room depth) (fun room hroom => ?_)
  have hlength := term_nesting_le_length t
  simp only [parens, List.length_cons, List.length_append] at hroom
  obtain ⟨room, rfl⟩ : ∃ k, room = k + 1 := ⟨room - 1, by omega⟩
  exact reads_parens (by omega) (reads_term hw hdepth (by omega) rfl) hmore

end Policy.Source
