import Policy.Proofs.Source.Local.Reader

namespace Policy.Source

/-! ## Parameters of calls -/

theorem parameter_of_startsParameter {located : List Located} {ts : List Token}
    (hl : located.map (·.token) = ts) (h : startsParameter ts = false) :
    parameter? located = none := by
  subst hl
  unfold parameter?
  split
  · cases h
  · rfl

theorem isSome_parameter {located : List Located} {ts : List Token}
    (hl : located.map (·.token) = ts) (h : startsParameter ts = true) :
    (parameter? located).isSome = true := by
  unfold startsParameter at h
  split at h
  · obtain ⟨p, rest, -, hsome⟩ := parameter_of_map hl
    rw [hsome]
    rfl
  · cases h

theorem map_of_parameter {located rest : List Located} {name ref : String} {p : Position}
    (h : parameter? located = some (name, p, ref, rest)) :
    located.map (·.token) = .name name :: .mark .eq :: .name ref :: rest.map (·.token) := by
  unfold parameter? at h
  split at h
  · cases h
    rfl
  · cases h

def Token.isName : Token → Bool
  | .name _ => true
  | _ => false

/-- Tokens of parameters, perhaps none, that are read as the same parameters wherever they stand. -/
structure ParametersFront (seen : List String) (front : List Token)
    (params : List (String × String)) : Prop where
  solid : .eof ∉ front
  noText : ∀ text, .str text ∉ front
  names : front.countP Token.isName = 2 * params.length
  starts : front = [] ∨ startsParameter front = true
  reads : ∀ room more, front.length ≤ room → (front = [] → startsParameter more = false) →
    (next more = .mark .comma → startsParameter more.tail = false) →
    Reads (readParameters room seen) (front ++ more) more params

theorem parametersFront_nil (seen : List String) : ParametersFront seen [] [] where
  solid := List.not_mem_nil
  noText _ := List.not_mem_nil
  names := rfl
  starts := .inl rfl
  reads := by
    intro room more _ hmore _ located hl
    refine ⟨located, hl, ?_⟩
    cases room with
    | zero => rfl
    | succ room =>
      have hnone := parameter_of_startsParameter hl (hmore rfl)
      simp only [readParameters, hnone]

theorem startsParameter_append {front more : List Token} (h : startsParameter front = true) :
    startsParameter (front ++ more) = true := by
  unfold startsParameter at h
  split at h
  · rfl
  · cases h

/-- One parameter, which no other one follows. -/
theorem parametersFront_one {seen : List String} {name ref : String} (hseen : name ∉ seen) :
    ParametersFront seen [.name name, .mark .eq, .name ref] [(name, ref)] where
  solid := by simp
  noText := by simp
  names := rfl
  starts := .inr rfl
  reads := by
    intro room more hroom _ hcomma located hl
    obtain ⟨room, rfl⟩ : ∃ k, room = k + 1 := ⟨room - 1, by simp at hroom; omega⟩
    obtain ⟨p, rest, hr, hparam⟩ := parameter_of_map hl
    have hr : rest.map (·.token) = more := hr
    refine ⟨rest, hr, ?_⟩
    have hcontains : seen.contains name = false := by simpa using hseen
    have hlast : (decide (peek rest = .mark .comma) && (parameter? rest.tail).isSome) = false := by
      by_cases hnext : next more = .mark .comma
      · have htail : rest.tail.map (·.token) = more.tail := by rw [List.map_tail, hr]
        have hnone := parameter_of_startsParameter htail (hcomma hnext)
        simp [hnone]
      · simp [peek_eq_next hr, hnext]
    simp only [readParameters, hparam, hcontains, hlast, Bool.false_eq_true, if_false]

/-- A parameter in front of a comma and of other ones. -/
theorem parametersFront_cons {seen : List String} {name ref : String} (hseen : name ∉ seen)
    {front : List Token} {params : List (String × String)}
    (h : ParametersFront (name :: seen) front params) (hstarts : startsParameter front = true) :
    ParametersFront seen (.name name :: .mark .eq :: .name ref :: .mark .comma :: front)
      ((name, ref) :: params) where
  solid := by simp [h.solid]
  noText := by simp [h.noText]
  names := by
    have hnames := h.names
    simp only [List.countP_cons, Token.isName, List.length_cons]
    simp only [if_true, Bool.false_eq_true, if_false]
    omega
  starts := .inr rfl
  reads := by
    intro room more hroom _ hcomma located hl
    rw [List.length_cons] at hroom
    obtain ⟨room, rfl⟩ : ∃ k, room = k + 1 := ⟨room - 1, by omega⟩
    have hless : front.length ≤ room := by
      simp only [List.length_cons] at hroom
      omega
    have hne : front = [] → startsParameter more = false := by
      rintro rfl
      cases hstarts
    obtain ⟨p, middle, hm, hparam⟩ := parameter_of_map hl
    obtain ⟨q, behind, rfl, hbehind⟩ := exists_of_map_cons hm
    obtain ⟨rest, hr, hx⟩ := h.reads room more hless hne hcomma behind hbehind
    have hcontains : seen.contains name = false := by simpa using hseen
    have hsome := isSome_parameter hbehind (startsParameter_append hstarts)
    refine ⟨rest, hr, ?_⟩
    simp only [readParameters, hparam, hcontains, peek, List.tail_cons, hsome, hx]
    rfl

/-- By induction on the room. There is room for all tokens, so that the list does not end before a
parameter for lack of it. -/
theorem exists_front_readParameters {room : Nat} {seen : List String} {located rest : List Located}
    {params : List (String × String)} (hroom : located.length ≤ room)
    (h : readParameters room seen located = .ok (params, rest)) :
    ∃ front, located.map (·.token) = front ++ rest.map (·.token) ∧
      ParametersFront seen front params ∧
      (startsParameter (located.map (·.token)) = true → front ≠ []) := by
  induction room generalizing seen located params with
  | zero =>
    cases List.length_eq_zero_iff.mp (Nat.le_zero.mp hroom)
    cases h
    exact ⟨[], rfl, parametersFront_nil seen, fun h => absurd h Bool.false_ne_true⟩
  | succ room ih =>
    simp only [readParameters] at h
    split at h
    · next hnone =>
      cases h
      refine ⟨[], rfl, parametersFront_nil seen, fun hstarts _ => ?_⟩
      have hsome := isSome_parameter rfl hstarts
      rw [hnone] at hsome
      cases hsome
    · next name p ref after hp =>
      have hmap := map_of_parameter hp
      split at h
      · cases h
      · next hseen =>
        have hseen : name ∉ seen := by simpa using hseen
        split at h
        · next hmore =>
          obtain ⟨hcomma, hsome⟩ := Bool.and_eq_true_iff.mp hmore
          obtain ⟨⟨others, last⟩, hothers, h⟩ := bind_ok_iff.mp h
          cases h
          cases after with
          | nil => cases hsome
          | cons t after =>
            have ht : t.token = .mark .comma := of_decide_eq_true hcomma
            have hless : after.length ≤ room := by
              have hlength := congrArg List.length hmap
              simp only [List.length_map, List.length_cons] at hlength
              omega
            obtain ⟨front, hfront, hf, hne⟩ := ih hless hothers
            obtain ⟨⟨name', p', ref', after'⟩, hnext⟩ := Option.isSome_iff_exists.mp hsome
            have hafter : after.map (·.token) = _ := map_of_parameter hnext
            have hstarts : startsParameter (after.map (·.token)) = true := by
              rw [hafter]
              rfl
            have hfstarts := hf.starts.resolve_left (hne hstarts)
            refine ⟨_, ?_, parametersFront_cons hseen hf hfstarts, fun _ => List.cons_ne_nil _ _⟩
            rw [hmap, List.map_cons, ht, hfront]
            rfl
        · cases h
          exact ⟨_, hmap, parametersFront_one hseen, fun _ => List.cons_ne_nil _ _⟩

/-! ## Atoms -/

section Term

variable {inner : Reader (Term String)} {again : Nat → Reader (Term String)}

/-- A single token. -/
theorem front_token {α : Type} {again : Nat → Reader α} {t u : Token} {x : α} (hu : u ≠ .eof)
    (hagain : ∀ room p located, again (room + 1) (⟨u, p⟩ :: located) = .ok (x, located)) :
    Front again [u] t x where
  nonempty := List.cons_ne_nil _ _
  solid := by simp [hu.symm]
  reads := by
    intro room more hroom _ located hl
    obtain ⟨room, rfl⟩ : ∃ k, room = k + 1 := ⟨room - 1, by simp at hroom; omega⟩
    obtain ⟨p, rest, rfl, hr⟩ := exists_of_map_cons hl
    exact ⟨rest, hr, hagain room p rest⟩

theorem local_readString : Local readString fun _ => readString := by
  intro located x rest h
  unfold readString at h
  split at h
  · cases h
    exact ⟨_, rfl, front_token Token.noConfusion fun _ _ _ => rfl⟩
  · cases h

/-- A call and its parameters. Without parameters the call is the end of the front. -/
theorem front_call {method : Method} {located rest : List Located} {x : Term String}
    (h : readCall method located = .ok (x, rest)) :
    ∃ front, located.map (·.token) = front ++ rest.map (·.token) ∧
      Front (fun room => readAtom (again room)) (.keyword (.method method) :: front) (peek rest) x := by
  obtain ⟨⟨url, middle⟩, hurl, h⟩ := bind_ok_iff.mp h
  obtain ⟨⟨params, last⟩, hparams, h⟩ := bind_ok_iff.mp h
  cases h
  unfold readString at hurl
  split at hurl
  · cases hurl
    obtain ⟨front, hfront, hf, -⟩ := exists_front_readParameters (Nat.le_refl _) hparams
    refine ⟨.str url :: front, by rw [List.map_cons, hfront]; rfl, List.cons_ne_nil _ _, ?_, ?_⟩
    · simp [hf.solid]
    · intro room more hroom hmore located hl
      have hcall : front = [] → startsParameter more = false := by
        rintro rfl
        exact hmore.call rfl
      obtain ⟨p, middle, rfl, hmiddle⟩ := exists_of_map_cons hl
      obtain ⟨q, behind, rfl, hbehind⟩ := exists_of_map_cons hmiddle
      have hbehind : behind.map (·.token) = front ++ more := hbehind
      have hless : front.length ≤ behind.length := by
        have hlength := congrArg List.length hbehind
        rw [List.length_map, List.length_append] at hlength
        omega
      obtain ⟨rest, hr, hx⟩ := hf.reads behind.length more hless hcall hmore.comma behind hbehind
      refine ⟨rest, hr, ?_⟩
      simp only [readAtom, readCall, readString, ok_bind, hx]
      rfl
  · cases hurl

/-- What stands in an atom takes one of the room less than the atom itself. -/
theorem local_readAtom (h : Local inner again) :
    Local (readAtom inner) fun room => readAtom (again (room - 1)) := by
  intro located x rest hx
  unfold readAtom at hx
  split at hx
  · cases hx
    exact ⟨_, rfl, front_token Token.noConfusion fun _ _ _ => rfl⟩
  · cases hx
    exact ⟨_, rfl, front_token Token.noConfusion fun _ _ _ => rfl⟩
  · cases hx
    exact ⟨_, rfl, front_token Token.noConfusion fun _ _ _ => rfl⟩
  · obtain ⟨⟨t, middle⟩, ht, hx⟩ := bind_ok_iff.mp hx
    obtain ⟨last, hlast, hx⟩ := bind_ok_iff.mp hx
    cases hx
    obtain ⟨p, rfl⟩ := exists_of_expectMark hlast
    obtain ⟨front, hfront, hf⟩ := h _ _ _ ht
    have hf : Front again front (.mark .rparen) x := hf
    have hparens : Front (fun room => readAtom (again (room - 1)))
        (.mark .lparen :: (front ++ [.mark .rparen])) (peek rest) x := by
      refine hf.between Token.noConfusion rfl fun room more hread => ?_
      rw [← parens_append]
      exact reads_paren hread
    refine ⟨_, ?_, hparens⟩
    rw [List.map_cons, hfront, List.cons_append, List.append_assoc]
    rfl
  · obtain ⟨⟨t, middle⟩, ht, hx⟩ := bind_ok_iff.mp hx
    cases hx
    obtain ⟨front, hfront, hf⟩ := h _ _ _ ht
    refine ⟨_, by rw [List.map_cons, hfront, List.cons_append], ?_⟩
    exact hf.behind Token.noConfusion fun room more hread => reads_coerce .string hread
  · obtain ⟨⟨t, middle⟩, ht, hx⟩ := bind_ok_iff.mp hx
    cases hx
    obtain ⟨front, hfront, hf⟩ := h _ _ _ ht
    refine ⟨_, by rw [List.map_cons, hfront, List.cons_append], ?_⟩
    exact hf.behind Token.noConfusion fun room more hread => reads_coerce .number hread
  · obtain ⟨⟨key, middle⟩, hkey, hx⟩ := bind_ok_iff.mp hx
    cases hx
    obtain ⟨front, hfront, hf⟩ := local_readString _ _ _ hkey
    refine ⟨_, by rw [List.map_cons, hfront, List.cons_append], ?_⟩
    exact hf.behind Token.noConfusion fun room more hread =>
      (hread.map Term.request).behind fun _ _ => rfl
  · obtain ⟨front, hfront, hf⟩ := front_call hx
    exact ⟨_, by rw [List.map_cons, hfront, List.cons_append], hf⟩
  · cases hx
  · cases hx

/-! ## Terms -/

theorem joins_of_closes {t : Token} (h : t.closes = true) : t.joins = false := by
  unfold Token.closes at h
  simp only [Bool.and_eq_true, Bool.not_eq_true'] at h
  exact h.1

theorem joining_factorSign : Joining factorSign? where
  separates t join h := by
    unfold factorSign? at h
    split at h
    · rfl
    · rfl
    · cases h
  closes t h := factorSign_of_joins (joins_of_closes h)

theorem joining_addendSign : Joining addendSign? where
  separates t join h := by
    unfold addendSign? at h
    split at h
    · rfl
    · rfl
    · cases h
  closes t h := addendSign_of_joins (joins_of_closes h)

theorem local_readSum (h : Local inner again) :
    Local (readSum inner) fun room => readSum (again (room - 1)) :=
  ((local_readAtom h).chain joining_factorSign).chain joining_addendSign

theorem local_readTermOver (h : Local inner again) :
    Local (readTermOver inner) fun room => readTermOver (again (room - 1)) := by
  intro located x rest hx
  obtain ⟨⟨subject, middle⟩, hsubject, hx⟩ := bind_ok_iff.mp hx
  obtain ⟨front, hfront, hf⟩ := local_readSum h _ _ _ hsubject
  dsimp only at hx
  split at hx
  · next p behind =>
    obtain ⟨⟨pattern, last⟩, hpattern, hx⟩ := bind_ok_iff.mp hx
    cases hx
    obtain ⟨back, hback, hb⟩ := local_readSum h _ _ _ hpattern
    refine ⟨front ++ .keyword .matching :: back, ?_, ?_, ?_, ?_⟩
    · rw [hfront, List.map_cons, hback, List.append_assoc]
      rfl
    · exact List.append_ne_nil_of_left_ne_nil hf.nonempty _
    · simp [hf.solid, hb.solid]
    · intro room more hroom hmore
      simp only [List.length_append, List.length_cons] at hroom
      have hbehind : Follows (.keyword .matching :: back) _ more := hmore.last front
      have hsame : Follows front (.keyword .matching) (.keyword .matching :: (back ++ more)) :=
        Follows.same rfl rfl
      rw [List.append_assoc]
      have hfirst := hf.reads room _ (by omega) hsame
      have hlast := hb.reads room more (by omega) (hbehind.last [_])
      exact reads_matching hfirst hlast
  · next hne =>
    cases hx
    refine ⟨front, hfront, hf.nonempty, hf.solid, fun room more hroom hmore => ?_⟩
    have hpeek : peek rest ≠ .keyword .matching := peek_ne Token.noConfusion hne
    exact reads_subject (hf.reads room more hroom hmore) (hmore.ne hpeek rfl)

/-- By induction on the room, of which each level takes one. -/
theorem local_readTermAt (limit : Option Nat) (room depth : Nat) :
    Local (readTermAt limit room depth) fun room => readTermAt limit room depth := by
  induction room generalizing depth with
  | zero => exact Local.expected _ _
  | succ room ih =>
    intro located x rest hx
    obtain ⟨front, hfront, hf⟩ := local_readTermOver (Local.nested (ih (depth + 1))) _ _ _ hx
    exact ⟨front, hfront, hf.congr fun _ => rfl⟩

theorem local_readTerm (limit : Option Nat) (depth : Nat) :
    Local (readTerm limit depth) fun _ => readTerm limit depth :=
  Local.of_length fun room => local_readTermAt limit room depth

end Term

end Policy.Source
