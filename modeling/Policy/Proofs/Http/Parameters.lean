import Policy.Proofs.Http.Content
import Policy.Proofs.Http.Percent

namespace Policy.Http

/-! ## What a far side reads -/

/-- What the first line of a request asks for. -/
structure Asked where
  method : List Char
  path : List Char
  query : Option (List (String × String))
  deriving DecidableEq

def isLineEnd (c : Char) : Bool := c = '\r' || c = '\n'

def version : List Char := ['H', 'T', 'T', 'P', '/', '1', '.', '1']

/-- The method and the target of the first line, which has three words with blanks between them. -/
def readLine? (head : List Char) : Option (List Char × List Char) :=
  match (head.takeWhile (!isLineEnd ·)).splitOn ' ' with
  | [method, target, last] => if last = version then some (method, target) else none
  | _ => none

/-- A pair of a query, split at its first equals sign. -/
def readPair? (piece : List Char) : Option (String × String) :=
  match piece.dropWhile (· ≠ '=') with
  | [] => none
  | _ :: value => do
    let name ← Percent.decode? (piece.takeWhile (· ≠ '='))
    let value ← Percent.decode? value
    pure (name, value)

/-- What a request asks for, read off what is sent from its first line on. -/
def asked? (head : List Char) : Option Asked := do
  let (method, target) ← readLine? head
  let path := target.takeWhile (· ≠ '?')
  match target.dropWhile (· ≠ '?') with
  | [] => pure ⟨method, path, none⟩
  | _ :: query => do
    let pairs ← (query.splitOn '&').mapM readPair?
    pure ⟨method, path, some pairs⟩

/-! ## Words of a line -/

/-- A part of a line that is a word. -/
def IsWord (cs : List Char) : Prop := ∀ c ∈ cs, c ≠ ' ' ∧ isLineEnd c = false

instance : DecidablePred IsWord := fun cs => List.decidableBAll _ cs

theorem isWord_append_iff {cs ds : List Char} : IsWord (cs ++ ds) ↔ IsWord cs ∧ IsWord ds :=
  List.forall_mem_append

theorem IsWord.blank_notMem {cs : List Char} (h : IsWord cs) : ' ' ∉ cs :=
  fun hblank => (h ' ' hblank).1 rfl

theorem isWord_method (method : Method) : IsWord method.name.toList := by
  cases method with
  | get | post | put | delete => decide +kernel

theorem readLine_of_words {method target : List Char} (hmethod : IsWord method)
    (htarget : IsWord target) (rest : List Char) :
    readLine? (method ++ ' ' :: (target ++ ' ' :: version) ++ '\r' :: '\n' :: rest) =
      some (method, target) := by
  have hversion : IsWord version := by decide
  have hline : ∀ c ∈ method ++ ' ' :: (target ++ ' ' :: version), (!isLineEnd c) = true := by
    intro c hc
    have hend : isLineEnd c = false := by
      rcases List.mem_append.mp hc with hc | hc
      · exact (hmethod c hc).2
      rcases List.mem_cons.mp hc with rfl | hc
      · rfl
      rcases List.mem_append.mp hc with hc | hc
      · exact (htarget c hc).2
      rcases List.mem_cons.mp hc with rfl | hc
      · rfl
      · exact (hversion c hc).2
    rw [hend]
    rfl
  have hfirst : (method ++ ' ' :: (target ++ ' ' :: version) ++ '\r' :: '\n' :: rest).takeWhile
      (!isLineEnd ·) = method ++ ' ' :: (target ++ ' ' :: version) := by
    rw [List.takeWhile_append_of_pos hline]
    simp [isLineEnd]
  rw [readLine?, hfirst, List.splitOn_append_cons_self_of_not_mem hmethod.blank_notMem,
    List.splitOn_append_cons_self_of_not_mem htarget.blank_notMem,
    List.splitOn_eq_singleton hversion.blank_notMem]
  rfl

/-! ## Addresses -/

theorem isPathChar_of_parse {text : String} {url : Url} (h : Url.parse? text = some url) :
    ∀ c ∈ url.path, Url.isPathChar c = true := by
  obtain ⟨⟨scheme, rest⟩, -, h⟩ := Option.bind_eq_some_iff.mp h
  obtain ⟨hsound, heq⟩ := Option.ite_none_right_eq_some.mp h
  cases heq
  simp only [Bool.and_eq_true, List.all_eq_true] at hsound
  exact hsound.1.2

theorem not_isPathChar : Url.isPathChar ' ' = false ∧ Url.isPathChar '\r' = false ∧
    Url.isPathChar '\n' = false ∧ Url.isPathChar '?' = false := by
  decide

theorem isPathChar_fullPath {url : Url} (h : ∀ c ∈ url.path, Url.isPathChar c = true) :
    ∀ c ∈ url.fullPath, Url.isPathChar c = true := by
  rw [Url.fullPath]
  split
  · exact List.all_eq_true.mp (by decide)
  · exact h

theorem ne_of_apart {among : Char → Bool} {c d : Char} (hd : among d = false)
    (hc : among c = true) : c ≠ d := by
  rintro rfl
  rw [hd] at hc
  cases hc

/-- Characters are parts of words where blanks and line ends are told apart from them. -/
theorem isWord_of_apart {among : Char → Bool}
    (h : among ' ' = false ∧ among '\r' = false ∧ among '\n' = false) {c : Char}
    (hc : among c = true) : c ≠ ' ' ∧ isLineEnd c = false := by
  obtain ⟨hblank, hreturn, hfeed⟩ := h
  refine ⟨ne_of_apart hblank hc, ?_⟩
  simp [isLineEnd, ne_of_apart hreturn hc, ne_of_apart hfeed hc]

theorem isWord_fullPath {url : Url} (h : ∀ c ∈ url.path, Url.isPathChar c = true) :
    IsWord url.fullPath := by
  obtain ⟨hblank, hreturn, hfeed, -⟩ := not_isPathChar
  exact fun c hc => isWord_of_apart ⟨hblank, hreturn, hfeed⟩ (isPathChar_fullPath h c hc)

/-! ## Queries -/

theorem joinPairs_cons (piece : List Char) (pieces : List (List Char)) :
    Url.joinPairs (piece :: pieces) = '?' :: ['&'].intercalate (piece :: pieces) := by
  rw [Url.joinPairs]
  induction pieces generalizing piece with
  | nil => simp
  | cons next pieces ih =>
    have hnext := List.cons.inj (ih next)
    rw [List.intercalate_cons_cons, ← hnext.2]
    simp

theorem isWritten_apart : Percent.isWritten ' ' = false ∧ Percent.isWritten '\r' = false ∧
    Percent.isWritten '\n' = false ∧ Percent.isWritten '&' = false ∧
    Percent.isWritten '=' = false := by
  decide

theorem mem_pair {p : String × Value} {c : Char} (h : c ∈ pair p) :
    c = '=' ∨ Percent.isWritten c = true := by
  rcases List.mem_append.mp h with h | h
  · exact .inr (Percent.isWritten_of_mem_encode h)
  · rcases List.mem_cons.mp h with rfl | h
    · exact .inl rfl
    · exact .inr (Percent.isWritten_of_mem_encode h)

theorem ampersand_notMem_pair (p : String × Value) : '&' ∉ pair p := by
  intro h
  rcases mem_pair h with h | h
  · cases h
  · exact ne_of_apart isWritten_apart.2.2.2.1 h rfl

/-- A pair is read back, since its name holds no equals sign. -/
theorem readPair_pair (p : String × Value) : readPair? (pair p) = some (p.1, p.2.render) := by
  have hname : ∀ c ∈ Percent.encode p.1.toList, decide (c ≠ '=') = true := by
    intro c hc
    have hwritten := Percent.isWritten_of_mem_encode hc
    exact decide_eq_true (ne_of_apart isWritten_apart.2.2.2.2 hwritten)
  have htake : (pair p).takeWhile (· ≠ '=') = Percent.encode p.1.toList := by
    rw [pair, List.takeWhile_append_of_pos hname]
    simp
  have hdrop : (pair p).dropWhile (· ≠ '=') = '=' :: Percent.encode p.2.render.toList := by
    rw [pair, List.dropWhile_append_of_pos hname]
    simp
  simp only [readPair?, htake, hdrop, Percent.decode_encode, Option.bind_eq_bind,
    Option.bind_some]
  rfl

theorem mapM_readPair (params : List (String × Value)) :
    (params.map pair).mapM readPair? = some (params.map fun p => (p.1, p.2.render)) := by
  induction params with
  | nil => rfl
  | cons p params ih =>
    rw [List.map_cons, List.mapM_cons, readPair_pair, ih]
    rfl

theorem readPairs_intercalate {params : List (String × Value)} (h : params ≠ []) :
    ((['&'].intercalate (params.map pair)).splitOn '&').mapM readPair? =
      some (params.map fun p => (p.1, p.2.render)) := by
  rw [List.splitOn_intercalate '&' _ (by simpa using h), mapM_readPair]
  intro piece hpiece
  obtain ⟨p, -, rfl⟩ := List.mem_map.mp hpiece
  exact ampersand_notMem_pair p

theorem isWord_pair (p : String × Value) : IsWord (pair p) := by
  obtain ⟨hblank, hreturn, hfeed, -⟩ := isWritten_apart
  intro c hc
  rcases mem_pair hc with rfl | hc
  · decide
  · exact isWord_of_apart ⟨hblank, hreturn, hfeed⟩ hc

theorem isWord_joinPairs (params : List (String × Value)) :
    IsWord (Url.joinPairs (params.map pair)) := by
  cases params with
  | nil => exact fun _ hc => nomatch hc
  | cons p params =>
    intro c hc
    rcases List.mem_cons.mp hc with rfl | hc
    · decide
    rcases List.mem_append.mp hc with hc | hc
    · exact isWord_pair p c hc
    · obtain ⟨piece, hpiece, hc⟩ := List.mem_flatMap.mp hc
      obtain ⟨q, -, rfl⟩ := List.mem_map.mp hpiece
      rcases List.mem_cons.mp hc with rfl | hc
      · decide
      · exact isWord_pair q c hc

/-! ## Requests -/

section Requests

variable {url : Url} (hpath : ∀ c ∈ url.path, Url.isPathChar c = true) (hquery : url.query = none)

include hquery in
theorem targetWith_pairs (params : List (String × Value)) :
    url.targetWith (params.map pair) = url.fullPath ++ Url.joinPairs (params.map pair) := by
  cases params with
  | nil => simp [Url.targetWith, hquery, Url.joinPairs]
  | cons p params =>
    show url.fullPath ++
      Url.joinPairs (Url.pairs (url.query.getD []) ++ pair p :: params.map pair) = _
    rw [hquery]
    rfl

include hpath hquery

/-- The first line of a request asks for the path of the address with the parameters, whatever is
sent behind it. -/
theorem asked_requestLine (method : Method) (params : List (String × Value)) (rest : List Char) :
    asked? ((requestLine method (url.targetWith (params.map pair))).toList ++
        '\r' :: '\n' :: rest) =
      some ⟨method.name.toList, url.fullPath,
        if params.isEmpty then none else some (params.map fun p => (p.1, p.2.render))⟩ := by
  have hfull := isPathChar_fullPath hpath
  have htarget : IsWord (url.fullPath ++ Url.joinPairs (params.map pair)) :=
    isWord_append_iff.mpr ⟨isWord_fullPath hpath, isWord_joinPairs params⟩
  have hline : (requestLine method (url.targetWith (params.map pair))).toList =
      method.name.toList ++ ' ' :: ((url.fullPath ++ Url.joinPairs (params.map pair)) ++
        ' ' :: version) := by
    simp only [requestLine, targetWith_pairs hquery, String.toList_append, String.toList_ofList,
      List.append_assoc]
    rfl
  have hmark : ∀ c ∈ url.fullPath, decide (c ≠ '?') = true := by
    intro c hc
    exact decide_eq_true (ne_of_apart not_isPathChar.2.2.2 (hfull c hc))
  rw [hline, asked?, readLine_of_words (isWord_method method) htarget, Option.bind_eq_bind,
    Option.bind_some]
  simp only [List.takeWhile_append_of_pos hmark, List.dropWhile_append_of_pos hmark]
  cases params with
  | nil => simp [Url.joinPairs]
  | cons p params =>
    have hread := readPairs_intercalate (List.cons_ne_nil p params)
    rw [List.map_cons] at hread ⊢
    rw [joinPairs_cons]
    simp [hread]

end Requests

section Answers

variable {userAgent : String} {url : Url} {call : Call}

theorem requestFor_without_content (url : Url) (hagent : userAgent.toList.all isHeaderChar = true)
    (h : carriesContent call.method = false) :
    requestFor userAgent url call =
      some ⟨url, requestLine call.method (url.targetWith (call.params.map pair)),
        if userAgent.isEmpty then none else some userAgent, none⟩ := by
  rw [requestFor, if_pos hagent, h]
  rfl

theorem requestFor_with_content (url : Url) (hagent : userAgent.toList.all isHeaderChar = true)
    (h : carriesContent call.method = true) :
    requestFor userAgent url call =
      some ⟨url, requestLine call.method (url.targetWith []),
        if userAgent.isEmpty then none else some userAgent, some (content call.params)⟩ := by
  rw [requestFor, if_pos hagent, h]
  rfl

theorem received_answer [Wording] {network : Network} {request : Request} {reply : Reply}
    (hurl : Url.parse? call.url = some url)
    (hrequest : requestFor userAgent url call = some request)
    (hreply : (requestFor userAgent url call).bind network = some reply)
    (received : List Request) :
    (answer userAgent network call received).2 = received ++ [request] := by
  rw [hrequest, Option.bind_some] at hreply
  simp only [answer, hurl, hrequest, hreply]

theorem carriesContent_iff {method : Method} :
    carriesContent method = true ↔ method = .post ∨ method = .put := by
  cases method with
  | get | post | put | delete => decide

theorem carriesContent_eq_false_iff {method : Method} :
    carriesContent method = false ↔ method = .get ∨ method = .delete := by
  cases method with
  | get | post | put | delete => decide

end Answers

/-- The parameters of a call are what the far side reads off the request, which goes to the address
of the call, whatever their names and values are made of. Of a request without content the first
line asks for the path of the address, with the names and the rendered values in their order as its
query, and without a query if there are none. A request with content asks for the path alone, and
its content is an object with each name once, where it came up first and with the value that it was
given last. -/
theorem parameters_read_back [Wording] (userAgent : String) (network : Network) (call : Call) (url : Url)
    (reply : Reply) (received : List Request)
    (hagent : userAgent.toList.all isHeaderChar = true)
    (hurl : Url.parse? call.url = some url) (hquery : url.query = none)
    (hreply : (requestFor userAgent url call).bind network = some reply) :
    ∃ request, (answer userAgent network call received).2 = received ++ [request] ∧
      request.toUrl = url ∧
      (call.method = .get ∨ call.method = .delete →
        request.content = none ∧
        ∀ rest, asked? (request.line.toList ++ '\r' :: '\n' :: rest) =
          some ⟨call.method.name.toList, url.fullPath,
            if call.params.isEmpty then none
            else some (call.params.map fun p => (p.1, p.2.render))⟩) ∧
      (call.method = .post ∨ call.method = .put →
        (∀ rest, asked? (request.line.toList ++ '\r' :: '\n' :: rest) =
          some ⟨call.method.name.toList, url.fullPath, none⟩) ∧
        ∃ body kept, request.content = some body ∧ Json.read body = some (.object kept) ∧
          Json.Collected (members call.params) kept) := by
  have hasked := asked_requestLine (isPathChar_of_parse hurl) hquery call.method
  cases hcarries : carriesContent call.method with
  | false =>
    have hrequest := requestFor_without_content url hagent hcarries
    refine ⟨_, received_answer hurl hrequest hreply received, rfl, ?_, ?_⟩
    · exact fun _ => ⟨rfl, hasked call.params⟩
    · intro hobject
      rw [carriesContent_iff.mpr hobject] at hcarries
      cases hcarries
  | true =>
    have hrequest := requestFor_with_content url hagent hcarries
    obtain ⟨kept, hread, hkept⟩ := read_content call.params
    refine ⟨_, received_answer hurl hrequest hreply received, rfl, ?_, ?_⟩
    · intro hpairs
      rw [carriesContent_eq_false_iff.mpr hpairs] at hcarries
      cases hcarries
    · exact fun _ => ⟨hasked [], _, kept, rfl, hread, hkept⟩

/-- A call whose values try to add a pair, to end the line and to pass for encoded text. -/
def forging (method : Method) : Call :=
  ⟨"http://roles/r", method, [("who", .string "a&admin=1 HTTP/1.1\r\nx: y"),
    ("", .string "é%26"), ("who", .number ⟨5, by decide⟩)]⟩

def rolesAt : Url :=
  ⟨['h', 't', 't', 'p'], ['r', 'o', 'l', 'e', 's'], ['/', 'r'], none⟩

def holdingRoles : Network := fun _ => some ⟨200, "admin", true⟩

/-- The values arrive as they are, and next to no others. -/
theorem forging_read_back :
    (defaultUserAgent.toList.all isHeaderChar = true ∧
      Url.parse? (forging .get).url = some rolesAt ∧ rolesAt.query = none ∧
      (requestFor defaultUserAgent rolesAt (forging .get)).bind holdingRoles =
        some ⟨200, "admin", true⟩) ∧
    (∃ request, (answer defaultUserAgent holdingRoles (forging .get) []).2 = [request] ∧
      request.toUrl = rolesAt ∧ request.content = none ∧
      asked? (request.line.toList ++ ['\r', '\n']) = some ⟨['G', 'E', 'T'], ['/', 'r'],
        some [("who", "a&admin=1 HTTP/1.1\r\nx: y"), ("", "é%26"), ("who", "5")]⟩) ∧
    ∃ request body kept, (answer defaultUserAgent holdingRoles (forging .put) []).2 = [request] ∧
      asked? (request.line.toList ++ ['\r', '\n']) = some ⟨['P', 'U', 'T'], ['/', 'r'], none⟩ ∧
      request.content = some body ∧ Json.read body = some (.object kept) ∧
      kept.map Prod.fst = ["who", ""] ∧ Json.get? "who" kept = some (.number (.whole 5)) := by
  have hagent : defaultUserAgent.toList.all isHeaderChar = true := by decide +kernel
  have hurl (method : Method) : Url.parse? (forging method).url = some rolesAt := by
    show Url.parse? "http://roles/r" = some rolesAt
    decide +kernel
  have hreply (method : Method) :
      (requestFor defaultUserAgent rolesAt (forging method)).bind holdingRoles =
        some ⟨200, "admin", true⟩ := by
    cases hcarries : carriesContent method with
    | false => rw [requestFor_without_content rolesAt hagent hcarries, Option.bind_some, holdingRoles]
    | true => rw [requestFor_with_content rolesAt hagent hcarries, Option.bind_some, holdingRoles]
  refine ⟨⟨hagent, hurl .get, rfl, hreply .get⟩, ?_, ?_⟩
  · obtain ⟨request, hreceived, haddress, hget, -⟩ := parameters_read_back defaultUserAgent
      holdingRoles (forging .get) rolesAt _ [] hagent (hurl .get) rfl (hreply .get)
    obtain ⟨hcontent, hasked⟩ := hget (.inl rfl)
    refine ⟨request, hreceived, haddress, hcontent, (hasked []).trans ?_⟩
    decide +kernel
  · obtain ⟨request, hreceived, -, -, hput⟩ := parameters_read_back defaultUserAgent holdingRoles
      (forging .put) rolesAt _ [] hagent (hurl .put) rfl (hreply .put)
    obtain ⟨hasked, body, kept, hbody, hread, hkept⟩ := hput (.inr rfl)
    refine ⟨request, body, kept, hreceived, (hasked []).trans ?_, hbody, hread, ?_, ?_⟩
    · decide +kernel
    · rw [hkept.names]
      decide +kernel
    · rw [hkept.values]
      decide +kernel

end Policy.Http
