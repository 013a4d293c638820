import Policy.Proofs.Evaluation.Running
import Policy.Proofs.Traced
import Policy.Service.Script

namespace Policy

/-! ## Derivations

When a tree is a derivation of a result. The rules follow the syntax: a node has the label of its
term, condition or rule, one child for each part that was evaluated, in order, and the value that
the step gives on the values of the children. From one session to the next, a derivation also tells
which calls were made on the way. -/

namespace Evaluation

variable {σ : Type}

mutual

/-- The tree derives the value of a term, which leads from the first session to the last one. -/
inductive TermDerivation (e : Evaluation σ) :
    Term Slot → Session σ → Value → Explanation → Session σ → Prop
  | string {text s} :
      TermDerivation e (.string text) s (.string text)
        (.node (.value (.string text)) "string" []) s
  | number {n s} :
      TermDerivation e (.number n) s (.number n) (.node (.value (.number n)) "number" []) s
  | attr {slot a s v child s'} (ha : e.set.attributes[slot]? = some a)
      (h : TermDerivation e a.value s v child s') :
      TermDerivation e (.attr slot) s v (.node (.value v) ("attribute " ++ a.name) [child]) s'
  | coerce {operand kind s v child s' w} (h : TermDerivation e operand s v child s')
      (hw : v.coerce kind = .ok w) :
      TermDerivation e (.coerce operand kind) s w
        (.node (.value w) ("to " ++ kind.name) [child]) s'
  | binary {op lhs rhs s a left s' b right s'' c} (hl : TermDerivation e lhs s a left s')
      (hr : TermDerivation e rhs s' b right s'') (hc : Value.apply op a b = .ok c) :
      TermDerivation e (.binary op lhs rhs) s c (.node (.value c) op.symbol [left, right]) s''
  | request {key text s} (h : e.request.get? key = some text) :
      TermDerivation e (.request key) s (.string text)
        (.node (.value (.string text)) ("request " ++ key) []) s
  | rest {url method params s values children s' body s''}
      (hparams : ParamDerivations e params s values children s')
      (hbody : (e.service.request ⟨url, method, values⟩).run s' = (.ok body, s'')) :
      TermDerivation e (.rest url method params) s (.string body)
        (.node (.value (.string body)) (method.name ++ " " ++ url)
          [.node (.params values) "params" children,
            .node (.value (.string body)) "response" []]) s''

/-- The trees derive the values of the attributes that parameters are given by. -/
inductive ParamDerivations (e : Evaluation σ) : List (String × Slot) → Session σ →
    List (String × Value) → List Explanation → Session σ → Prop
  | nil {s} : ParamDerivations e [] s [] [] s
  | cons {name slot params s v child s' values children s''}
      (h : TermDerivation e (.attr slot) s v child s')
      (hs : ParamDerivations e params s' values children s'') :
      ParamDerivations e ((name, slot) :: params) s ((name, v) :: values) (child :: children) s''

end

/-- The tree derives whether a condition holds. -/
inductive ConditionDerivation (e : Evaluation σ) :
    Condition Slot → Session σ → Bool → Explanation → Session σ → Prop
  | not {inner s holds child s'} (h : ConditionDerivation e inner s holds child s') :
      ConditionDerivation e (.not inner) s (!holds) (.node (.truth (!holds)) "not" [child]) s'
  | and {lhs rhs s a left s' b right s''} (hl : ConditionDerivation e lhs s a left s')
      (hr : ConditionDerivation e rhs s' b right s'') :
      ConditionDerivation e (.and lhs rhs) s (a && b)
        (.node (.truth (a && b)) "and" [left, right]) s''
  | or {lhs rhs s a left s' b right s''} (hl : ConditionDerivation e lhs s a left s')
      (hr : ConditionDerivation e rhs s' b right s'') :
      ConditionDerivation e (.or lhs rhs) s (a || b)
        (.node (.truth (a || b)) "or" [left, right]) s''
  | equal {lhs rhs s a left s' b right s''} (hl : TermDerivation e lhs s a left s')
      (hr : TermDerivation e rhs s' b right s'') :
      ConditionDerivation e (.equal lhs rhs) s (a.equals b)
        (.node (.truth (a.equals b)) "==" [left, right]) s''
  | greater {lhs rhs s a left s' b right s'' holds} (hl : TermDerivation e lhs s a left s')
      (hr : TermDerivation e rhs s' b right s'') (h : a.greater b = .ok holds) :
      ConditionDerivation e (.greater lhs rhs) s holds
        (.node (.truth holds) ">" [left, right]) s''

mutual

/-- The tree derives the decision of a rule. Of a branch it shows the leg that was selected. -/
inductive RuleDerivation (e : Evaluation σ) :
    Rule Slot → Session σ → Decision → Explanation → Session σ → Prop
  | always {decision s} :
      RuleDerivation e (.always decision) s decision (.node (.decision decision) "always" []) s
  | never {s} :
      RuleDerivation e .never s .undecided (.node (.decision .undecided) "never" []) s
  | when {condition decision s holds child s' d}
      (h : ConditionDerivation e condition s holds child s')
      (hd : d = if holds then decision else .undecided) :
      RuleDerivation e (.when condition decision) s d (.node (.decision d) "when" [child]) s'
  | branch {condition onTrue onFalse s holds first s' d second s''}
      (hc : ConditionDerivation e condition s holds first s')
      (h : RuleDerivation e (if holds then onTrue else onFalse) s' d second s'') :
      RuleDerivation e (.branch condition onTrue onFalse) s d
        (.node (.decision d) "branch" [first, second]) s''
  | majority {decision members s ds children s' d}
      (h : MemberDerivations e members s ds children s') (hd : d = Decision.majority decision ds) :
      RuleDerivation e (.majority decision members) s d
        (.node (.decision d) "majority" children) s'
  | all {decision members s ds children s' d}
      (h : MemberDerivations e members s ds children s')
      (hd : d = Decision.unanimous decision ds) :
      RuleDerivation e (.all decision members) s d (.node (.decision d) "all" children) s'
  | any {decision members s ds children s' d}
      (h : MemberDerivations e members s ds children s') (hd : d = Decision.anyOf decision ds) :
      RuleDerivation e (.any decision members) s d (.node (.decision d) "any" children) s'
  | oneOf {members s ds children s' d}
      (h : MemberDerivations e members s ds children s') (hd : d = Decision.exclusive ds) :
      RuleDerivation e (.oneOf members) s d (.node (.decision d) "one-of" children) s'

/-- The trees derive the decisions of the members of a group. -/
inductive MemberDerivations (e : Evaluation σ) : List (Rule Slot) → Session σ →
    List Decision → List Explanation → Session σ → Prop
  | nil {s} : MemberDerivations e [] s [] [] s
  | cons {rule rules s d child s' ds children s''} (h : RuleDerivation e rule s d child s')
      (hs : MemberDerivations e rules s' ds children s'') :
      MemberDerivations e (rule :: rules) s (d :: ds) (child :: children) s''

end

theorem RuleDerivation.found {e : Evaluation σ} {r : Rule Slot} {s s' : Session σ} {d : Decision}
    {tree : Explanation} (h : e.RuleDerivation r s d tree s') : tree.found = .decision d := by
  cases h with
  | always | never | when | branch | majority | all | any | oneOf => rfl

end Evaluation

/-! ## Computations that explain what they come to

There is one rule for each way in which the evaluator joins results. -/

/-- A success of the computation comes with a tree that derives its value. -/
def Explains {σ α : Type} [Shown α] (derives : σ → α → Explanation → σ → Prop)
    (x : StateM σ (Traced α)) : Prop :=
  ∀ s a tree, (x.run s).1.parts = .ok (a, tree) → derives s a tree (x.run s).2

namespace Explains

variable {σ α β γ ι : Type} [Shown α] [Shown β] [Shown γ] {x : StateM σ (Traced α)}
  {derives : σ → α → Explanation → σ → Prop} {derives' : σ → β → Explanation → σ → Prop}
  {derives'' : σ → γ → Explanation → σ → Prop}

theorem of_leaf {a : α} {label : String}
    (h : ∀ s, derives s a (.node (Shown.finding a) label []) s) :
    Explains derives (pure (.leaf a label)) := by
  intro s b tree hparts
  cases hparts
  exact h s

theorem of_failed (fault : Fault) : Explains derives (pure (.failed fault)) := by
  intro s a tree hparts
  cases hparts

theorem tryMap {f : α → Except Fault β} {label : String} (hx : Explains derives x)
    (hf : ∀ s a child s' b, derives s a child s' → f a = .ok b →
      derives' s b (.node (Shown.finding b) label [child]) s') :
    Explains derives' (do let t ← x; pure (t.tryMap f label)) := by
  intro s b tree hparts
  obtain ⟨a, child, ha, hb, rfl⟩ := Traced.parts_tryMap_eq_ok hparts
  have hchild := hx s a child ha
  exact hf s a child _ b hchild hb

theorem combine {y : StateM σ (Traced β)} {f : α → β → Except Fault γ} {label : String}
    (hx : Explains derives x) (hy : Explains derives' y)
    (hf : ∀ s a left s' b right s'' c, derives s a left s' → derives' s' b right s'' →
      f a b = .ok c → derives'' s c (.node (Shown.finding c) label [left, right]) s'') :
    Explains derives'' (do let t ← x; let u ← y; pure (Traced.combine f label t u)) := by
  intro s c tree hparts
  obtain ⟨a, left, b, right, ha, hb, hc, rfl⟩ := Traced.parts_combine_eq_ok hparts
  have hleft := hx s a left ha
  have hright := hy (x.run s).2 b right hb
  exact hf s a left _ b right _ c hleft hright hc

theorem flatMap {next : α → StateM σ (Traced β)} {label : String} (hx : Explains derives x)
    {derivesNext : α → σ → β → Explanation → σ → Prop}
    (hn : ∀ a, Explains (derivesNext a) (next a))
    (hf : ∀ s a first s' b second s'', derives s a first s' → derivesNext a s' b second s'' →
      derives' s b (.node (Shown.finding b) label [first, second]) s'') :
    Explains derives' (do let t ← x; t.flatMap next label) := by
  intro s b tree hparts
  simp only [run_bind, Traced.run_flatMap] at hparts ⊢
  cases hp : (x.run s).1.parts with
  | error fault =>
    rw [hp] at hparts
    cases hparts
  | ok part =>
    obtain ⟨a, first⟩ := part
    rw [hp] at hparts
    obtain ⟨second, hb, rfl⟩ := Traced.parts_follow_eq_ok hparts
    have hfirst := hx s a first hp
    have hsecond := hn a (x.run s).2 b second hb
    exact hf s a first _ b second _ hfirst hsecond

end Explains

/-! ## Runs -/

namespace Evaluation

variable {σ : Type} (e : Evaluation σ)

theorem explains_lookup (key : String) :
    Explains (e.TermDerivation (.request key)) (pure (e.lookup key)) := by
  unfold lookup
  cases h : e.request.get? key with
  | none => exact Explains.of_failed _
  | some text => exact Explains.of_leaf fun _ => .request h

/-- What the call of a REST term is explained by: the answer, as it came. -/
theorem explains_call (url : String) (method : Method) (values : List (String × Value)) :
    Explains (fun s v tree s' => ∃ body,
      (e.service.request ⟨url, method, values⟩).run s = (.ok body, s') ∧ v = .string body ∧
        tree = .node (.value (.string body)) "response" [])
      (e.call url method values) := by
  intro s v tree hparts
  simp only [call, run_bind] at hparts ⊢
  cases hanswer : (e.service.request ⟨url, method, values⟩).run s with
  | mk answer s' =>
    rw [hanswer] at hparts
    cases answer with
    | error fault => cases hparts
    | ok body =>
      cases hparts
      exact ⟨body, rfl, rfl, rfl⟩

theorem explains_entryParts {deref : Slot → Run σ (Traced Value)}
    (h : ∀ slot, Explains (e.TermDerivation (.attr slot)) (deref slot))
    (params : List (String × Slot)) (s : Session σ)
    (parts : List ((String × Value) × Explanation))
    (hparts : ((Traced.entryParts deref params).run s).1 = .ok parts) :
    e.ParamDerivations params s (parts.map Prod.fst) (parts.map Prod.snd)
      ((Traced.entryParts deref params).run s).2 := by
  induction params generalizing s parts with
  | nil =>
    cases hparts
    exact .nil
  | cons param params ih =>
    obtain ⟨name, slot⟩ := param
    simp only [Traced.entryParts, run_bind] at hparts ⊢
    cases hp : ((deref slot).run s).1.parts with
    | error fault =>
      rw [hp] at hparts
      cases hparts
    | ok part =>
      obtain ⟨v, child⟩ := part
      rw [hp] at hparts
      have hfirst := h slot s v child hp
      simp only [run_bind, run_pure] at hparts ⊢
      cases hrest : ((Traced.entryParts deref params).run ((deref slot).run s).2).1 with
      | error fault =>
        rw [hrest] at hparts
        cases hparts
      | ok rest =>
        rw [hrest] at hparts
        cases hparts
        exact .cons hfirst (ih _ rest hrest)

theorem explains_params {deref : Slot → Run σ (Traced Value)}
    (h : ∀ slot, Explains (e.TermDerivation (.attr slot)) (deref slot))
    (params : List (String × Slot)) :
    Explains (fun s values tree s' => ∃ children,
      e.ParamDerivations params s values children s' ∧
        tree = .node (.params values) "params" children)
      (Traced.traverse deref "params" params) := by
  intro s values tree hparts
  simp only [Traced.traverse, run_bind] at hparts ⊢
  cases hentries : ((Traced.entryParts deref params).run s).1 with
  | error fault =>
    rw [hentries] at hparts
    cases hparts
  | ok parts =>
    rw [hentries] at hparts
    cases hparts
    exact ⟨parts.map Prod.snd, e.explains_entryParts h params s parts hentries, rfl⟩

theorem explains_termWith {deref : Slot → Run σ (Traced Value)}
    (h : ∀ slot, Explains (e.TermDerivation (.attr slot)) (deref slot)) (t : Term Slot) :
    Explains (e.TermDerivation t) (e.termWith deref t) := by
  induction t with
  | string text => exact Explains.of_leaf fun _ => .string
  | number n => exact Explains.of_leaf fun _ => .number
  | attr slot => exact h slot
  | coerce operand kind ih => exact ih.tryMap fun _ _ _ _ _ hd hw => .coerce hd hw
  | binary op lhs rhs ihl ihr =>
    exact ihl.combine ihr fun _ _ _ _ _ _ _ _ hl hr hc => .binary hl hr hc
  | request key => exact e.explains_lookup key
  | rest url method params =>
    refine (e.explains_params h params).flatMap (e.explains_call url method) ?_
    rintro s values tree s' v answer s'' ⟨children, hparams, rfl⟩ ⟨body, hbody, rfl, rfl⟩
    exact .rest hparams hbody

/-- By induction on the room, since each attribute leaves one less to those it refers to. -/
theorem explains_attrAt (room : Nat) (chain : List Slot) (slot : Slot) :
    Explains (e.TermDerivation (.attr slot)) (e.attrAt room chain slot) := by
  induction room using Nat.strongRecOn generalizing chain slot with
  | ind room ih =>
    obtain ⟨-, hrun⟩ | ⟨a, ha, ⟨-, hrun⟩ | ⟨-, -, hrun⟩ | ⟨less, -, hroom, hrun⟩⟩ :=
      e.attrAt_cases room chain slot
    · rw [hrun]
      exact Explains.of_failed _
    · rw [hrun]
      exact Explains.of_failed _
    · rw [hrun]
      exact Explains.of_failed _
    · rw [hrun]
      have hless : less < room := by omega
      have hvalue := e.explains_termWith (ih less hless (slot :: chain)) a.value
      refine hvalue.tryMap fun s v child s' w hd hw => ?_
      cases hw
      exact .attr ha hd

theorem explains_term (t : Term Slot) : Explains (e.TermDerivation t) (e.term t) :=
  e.explains_termWith (e.explains_attrAt e.depthLimit []) t

theorem explains_condition (c : Condition Slot) :
    Explains (e.ConditionDerivation c) (e.condition c) := by
  induction c with
  | not inner ih =>
    refine ih.tryMap fun s holds child s' b hd hb => ?_
    cases hb
    exact .not hd
  | and lhs rhs ihl ihr =>
    refine ihl.combine ihr fun s a left s' b right s'' c hl hr hc => ?_
    cases hc
    exact .and hl hr
  | or lhs rhs ihl ihr =>
    refine ihl.combine ihr fun s a left s' b right s'' c hl hr hc => ?_
    cases hc
    exact .or hl hr
  | equal lhs rhs =>
    refine (e.explains_term lhs).combine (e.explains_term rhs) ?_
    intro s a left s' b right s'' c hl hr hc
    cases hc
    exact .equal hl hr
  | greater lhs rhs =>
    refine (e.explains_term lhs).combine (e.explains_term rhs) ?_
    intro s a left s' b right s'' c hl hr hc
    exact .greater hl hr hc

/-- A group is explained by the trees of its members. -/
theorem explains_group {members : List (Rule Slot)} {f : List Decision → Decision}
    {label : String} {derives : Session σ → Decision → Explanation → Session σ → Prop}
    (h : ∀ s parts, Traced.allParts ((e.rules members).run s).1 = .ok parts →
      e.MemberDerivations members s (parts.map Prod.fst) (parts.map Prod.snd)
        ((e.rules members).run s).2)
    (hf : ∀ s ds children s' d, e.MemberDerivations members s ds children s' → d = f ds →
      derives s d (.node (.decision d) label children) s') :
    Explains derives (do let xs ← e.rules members; pure (Traced.aggregate f label xs)) := by
  intro s d tree hparts
  obtain ⟨parts, hall, hd, rfl⟩ := Traced.parts_aggregate_eq_ok hparts
  exact hf s _ _ _ d (h s parts hall) hd

mutual

theorem explains_rule (r : Rule Slot) : Explains (e.RuleDerivation r) (e.rule r) := by
  cases r with
  | always decision => exact Explains.of_leaf fun _ => .always
  | never => exact Explains.of_leaf fun _ => .never
  | when condition decision =>
    refine (e.explains_condition condition).tryMap fun s holds child s' d hc hd => ?_
    cases hd
    exact .when hc rfl
  | branch condition onTrue onFalse =>
    have hleg (holds : Bool) : Explains (e.RuleDerivation (if holds then onTrue else onFalse))
        (if holds then e.rule onTrue else e.rule onFalse) := by
      cases holds with
      | true => exact explains_rule onTrue
      | false => exact explains_rule onFalse
    exact (e.explains_condition condition).flatMap hleg fun _ _ _ _ _ _ _ hc h => .branch hc h
  | majority decision members =>
    exact e.explains_group (derives_members members) fun _ _ _ _ _ h hd => .majority h hd
  | all decision members =>
    exact e.explains_group (derives_members members) fun _ _ _ _ _ h hd => .all h hd
  | any decision members =>
    exact e.explains_group (derives_members members) fun _ _ _ _ _ h hd => .any h hd
  | oneOf members =>
    exact e.explains_group (derives_members members) fun _ _ _ _ _ h hd => .oneOf h hd

theorem derives_members (rs : List (Rule Slot)) (s : Session σ)
    (parts : List (Decision × Explanation))
    (hparts : Traced.allParts ((e.rules rs).run s).1 = .ok parts) :
    e.MemberDerivations rs s (parts.map Prod.fst) (parts.map Prod.snd)
      ((e.rules rs).run s).2 := by
  cases rs with
  | nil =>
    cases hparts
    exact .nil
  | cons r rs =>
    simp only [rules, run_bind, run_pure] at hparts ⊢
    obtain ⟨part, hfirst, hparts⟩ := bind_ok_iff.mp hparts
    obtain ⟨rest, hrest, hparts⟩ := bind_ok_iff.mp hparts
    cases hparts
    exact .cons (explains_rule r s part.1 part.2 hfirst) (derives_members rs _ rest hrest)

end

/-- The explanation of a rule that succeeds is a derivation of its decision: it shows every part
that was evaluated, in order, and each node has the value that its step gives on those of its
children. -/
theorem explanation_derives_decision (r : Rule Slot) (s : Session σ) (d : Decision)
    (h : ((e.rule r).run s).1.result = .ok d) :
    ∃ tree, ((e.rule r).run s).1.explanation = .ok tree ∧ tree.found = .decision d ∧
      e.RuleDerivation r s d tree ((e.rule r).run s).2 := by
  rw [Traced.result_eq_parts] at h
  cases hparts : ((e.rule r).run s).1.parts with
  | error fault =>
    rw [hparts] at h
    cases h
  | ok part =>
    obtain ⟨found, tree⟩ := part
    rw [hparts] at h
    cases h
    have htree := e.explains_rule r s found tree hparts
    refine ⟨tree, ?_, htree.found, htree⟩
    rw [Traced.explanation, hparts]
    rfl

/-- A request of ann, whose role is asked for elsewhere. -/
def roleRequest : Evaluation Service.Script.History where
  set :=
    ⟨[⟨"user", .request "user"⟩, ⟨"role", .rest "http://directory/roles" .post [("name", 0)]⟩], []⟩
  request := [("user", "ann"), ("age", "41")]
  service := Service.Script.service ⟨[("http://directory/roles", [.ok "admin"])], none⟩
  depthLimit := defaultDepth

/-- Admins are let in where most rules agree to that, and nobody else is. -/
def adultAdmins : Rule Slot :=
  .branch (.equal (.attr 1) (.string "admin"))
    (.majority .permit
      [.when (.greater (.coerce (.request "age") .number) (.number ⟨17, by decide⟩)) .permit,
        .always .permit, .never])
    (.always .deny)

theorem explanation_derives_permit_of_admin :
    ((roleRequest.rule adultAdmins).run ⟨[], []⟩).1.result = .ok .permit ∧
    ∃ tree, ((roleRequest.rule adultAdmins).run ⟨[], []⟩).1.explanation = .ok tree ∧
      tree.found = .decision .permit ∧
      roleRequest.RuleDerivation adultAdmins ⟨[], []⟩ .permit tree
        ((roleRequest.rule adultAdmins).run ⟨[], []⟩).2 :=
  have h : ((roleRequest.rule adultAdmins).run ⟨[], []⟩).1.result = .ok .permit := by rfl
  ⟨h, roleRequest.explanation_derives_decision adultAdmins ⟨[], []⟩ .permit h⟩

end Evaluation

end Policy
