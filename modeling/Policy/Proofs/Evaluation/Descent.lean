import Policy.Proofs.Evaluation.References
import Policy.Proofs.Evaluation.Running

namespace Policy

/-! ## Evaluation with one chain for all

The evaluator once more, with one chain that all calls share: an attribute puts itself on it before
its term is evaluated and takes the top off afterwards. Nothing but `fuel` bounds how far attributes
are looked into, and a run that it does not suffice for has no outcome. -/

/-- What a function of the evaluator is called on. -/
inductive Callee where
  | term (t : Term Slot)
  | attribute (slot : Slot)

/-- A call of the evaluator to itself, with the chain that it found. -/
structure Entry where
  callee : Callee
  chain : List Slot

/-- A session with the attributes that are being looked into, innermost first, and all calls so far,
first one first. -/
structure Descent (σ : Type) where
  session : Session σ
  chain : List Slot
  entries : List Entry

abbrev Descending (σ : Type) := StateT (Descent σ) Option

namespace Descending

variable {σ α : Type}

/-- A computation that leaves the chain alone. -/
def within (x : StateM (Session σ) α) : Descending σ α := fun d =>
  some ((x.run d.session).1, { d with session := (x.run d.session).2 })

def enter (callee : Callee) : Descending σ Unit :=
  modify fun d => { d with entries := d.entries ++ [⟨callee, d.chain⟩] }

/-- A computation with the attribute on top of the chain. Whatever stands there afterwards is taken
off. -/
def inside (slot : Slot) (x : Descending σ α) : Descending σ α := do
  modify fun d => { d with chain := slot :: d.chain }
  let a ← x
  modify fun d => { d with chain := d.chain.tail }
  pure a

end Descending

namespace Evaluation

open Descending

variable {σ : Type}

/-- Evaluates a term, where `deref` evaluates attributes. -/
def descendWith (e : Evaluation σ) (deref : Slot → Descending σ (Traced Value)) (t : Term Slot) :
    Descending σ (Traced Value) := do
  enter (.term t)
  match t with
  | .string text => pure (.leaf (.string text) "string")
  | .number n => pure (.leaf (.number n) "number")
  | .attr slot => deref slot
  | .coerce operand kind => do
    let x ← descendWith e deref operand
    pure (x.tryMap (·.coerce kind) ("to " ++ kind.name))
  | .binary op lhs rhs => do
    let x ← descendWith e deref lhs
    let y ← descendWith e deref rhs
    pure (Traced.combine (Value.apply op) op.symbol x y)
  | .request key => pure (e.lookup key)
  | .rest url method params => do
    let values ← Traced.traverse deref "params" params
    values.flatMap (fun values => within (e.call url method values)) (method.name ++ " " ++ url)

/-- Evaluates an attribute inside of those on the chain. -/
def descendAttr (e : Evaluation σ) : (fuel : Nat) → Slot → Descending σ (Traced Value)
  | 0, _ => failure
  | fuel + 1, slot => do
    enter (.attribute slot)
    match e.set.attributes[slot]? with
    | none => pure (.failed (.unknownSlot slot))
    | some a => do
      let chain := (← get).chain
      if chain.contains slot then pure (.failed (.cycle a.name))
      else if e.depthLimit ≤ chain.length then pure (.failed (.tooDeep a.name e.depthLimit))
      else do
        let x ← inside slot (e.descendWith (descendAttr e fuel) a.value)
        pure (x.map id ("attribute " ++ a.name))

def descend (e : Evaluation σ) (fuel : Nat) : Term Slot → Descending σ (Traced Value) :=
  e.descendWith (e.descendAttr fuel)

end Evaluation

/-! ## Every call leaves the chain as it found it -/

/-- Wherever the computation comes to an end, the chain is the one it started with. -/
def Restores {σ α : Type} (y : Descending σ α) : Prop :=
  ∀ d a d', y.run d = some (a, d') → d'.chain = d.chain

namespace Descending

variable {σ α β : Type}

theorem run_bind_eq_some_iff {y : Descending σ α} {next : α → Descending σ β} {b : β}
    {d d'' : Descent σ} :
    (y >>= next).run d = some (b, d'') ↔
      ∃ a d', y.run d = some (a, d') ∧ (next a).run d' = some (b, d'') := by
  rw [StateT.run_bind]
  show (y.run d).bind _ = _ ↔ _
  rw [Option.bind_eq_some_iff]
  exact Prod.exists

end Descending

namespace Restores

open Descending

variable {σ α β ι : Type}

theorem pure (a : α) : Restores (pure a : Descending σ α) := by
  intro d a' d' h
  cases h
  rfl

theorem bind {y : Descending σ α} {next : α → Descending σ β} (h : Restores y)
    (hn : ∀ a, Restores (next a)) : Restores (y >>= next) := by
  intro d b d'' hd
  obtain ⟨a, d', ha, hb⟩ := run_bind_eq_some_iff.mp hd
  rw [hn a d' b d'' hb, h d a d' ha]

theorem within (x : StateM (Session σ) α) : Restores (Descending.within x) := by
  intro d a d' h
  cases h
  rfl

theorem enter (callee : Callee) : Restores (Descending.enter callee : Descending σ Unit) := by
  intro d a d' h
  cases h
  rfl

theorem look : Restores (get : Descending σ (Descent σ)) := by
  intro d a d' h
  cases h
  rfl

theorem flatMap [Shown α] [Shown β] {next : α → Descending σ (Traced β)} (label : String)
    (x : Traced α) (hn : ∀ a, Restores (next a)) : Restores (x.flatMap next label) := by
  cases x with
  | failed fault => exact pure _
  | success a l children => exact (hn a).bind fun y => pure _

theorem entryParts [Shown α] {f : ι → Descending σ (Traced α)} (hf : ∀ i, Restores (f i))
    (entries : List (String × ι)) : Restores (Traced.entryParts f entries) := by
  induction entries with
  | nil => exact pure _
  | cons entry entries ih =>
    refine (hf entry.2).bind fun x => ?_
    cases x with
    | failed fault => exact pure _
    | success a l children => exact ih.bind fun parts => pure _

theorem traverse [Shown α] {f : ι → Descending σ (Traced α)} (label : String)
    (hf : ∀ i, Restores (f i)) (entries : List (String × ι)) :
    Restores (Traced.traverse f label entries) := by
  refine (entryParts hf entries).bind fun parts => ?_
  cases parts with
  | ok parts => exact pure _
  | error fault => exact pure _

/-- What is put on the chain comes off again, as the computation in between leaves the chain as it
found it. -/
theorem inside {y : Descending σ α} (h : Restores y) (slot : Slot) :
    Restores (Descending.inside slot y) := by
  intro d b d' hd
  obtain ⟨_, _, hpush, hd⟩ := run_bind_eq_some_iff.mp hd
  cases hpush
  obtain ⟨a, mid, ha, hd⟩ := run_bind_eq_some_iff.mp hd
  obtain ⟨_, _, hpop, hd⟩ := run_bind_eq_some_iff.mp hd
  cases hpop
  cases hd
  have hmid : mid.chain = slot :: d.chain := h _ _ mid ha
  show mid.chain.tail = d.chain
  rw [hmid, List.tail_cons]

variable {e : Evaluation σ}

theorem descendWith {deref : Slot → Descending σ (Traced Value)}
    (hderef : ∀ slot, Restores (deref slot)) (t : Term Slot) :
    Restores (e.descendWith deref t) := by
  induction t with
  | string text | number n | request key => exact (enter _).bind fun _ => pure _
  | attr slot => exact (enter _).bind fun _ => hderef slot
  | coerce operand kind ih => exact (enter _).bind fun _ => ih.bind fun x => pure _
  | binary op lhs rhs ihl ihr =>
    exact (enter _).bind fun _ => ihl.bind fun x => ihr.bind fun y => pure _
  | rest url method params =>
    refine (enter _).bind fun _ => (traverse "params" hderef params).bind fun values => ?_
    exact flatMap _ values fun values => within _

theorem descendAttr (fuel : Nat) (slot : Slot) : Restores (e.descendAttr fuel slot) := by
  induction fuel generalizing slot with
  | zero =>
    intro d a d' h
    cases h
  | succ fuel ih =>
    refine (enter _).bind fun _ => ?_
    cases e.set.attributes[slot]? with
    | none => exact pure _
    | some a =>
      refine look.bind fun d => ?_
      dsimp only
      split
      · exact pure _
      · split
        · exact pure _
        · exact ((descendWith ih a.value).inside slot).bind fun x => pure _

theorem descend (fuel : Nat) (t : Term Slot) : Restores (e.descend fuel t) :=
  descendWith (descendAttr fuel) t

end Restores

/-! ## One chain for all is as good as one for each call -/

namespace Evaluation

/-- No attribute is on the chain twice, all of them are in the rule set, and there are no more than
the limit allows or the rule set holds. -/
structure SoundChain {σ : Type} (e : Evaluation σ) (chain : List Slot) : Prop where
  nodup : chain.Nodup
  inRange : ∀ slot ∈ chain, slot < e.set.attributes.length
  short : chain.length ≤ min e.depthLimit e.set.attributes.length

variable {σ : Type} {e : Evaluation σ}

theorem soundChain_nil : e.SoundChain [] := ⟨List.nodup_nil, nofun, Nat.zero_le _⟩

theorem SoundChain.cons {chain : List Slot} {slot : Slot} (h : e.SoundChain chain)
    (hnew : slot ∉ chain) (hslot : slot < e.set.attributes.length)
    (hlimit : chain.length < e.depthLimit) : e.SoundChain (slot :: chain) := by
  have hnodup : (slot :: chain).Nodup := List.nodup_cons.mpr ⟨hnew, h.nodup⟩
  have hin : ∀ other ∈ slot :: chain, other < e.set.attributes.length :=
    List.forall_mem_cons.mpr ⟨hslot, h.inRange⟩
  exact ⟨hnodup, hin, Nat.le_min.mpr ⟨hlimit, RuleSet.length_le_of_nodup hnodup hin⟩⟩

end Evaluation

/-- Started with the chain, the first computation comes to an end with what the second one comes to,
and with the same chain. All calls on the way find sound chains. -/
def Tracks {σ α : Type} (e : Evaluation σ) (chain : List Slot) (y : Descending σ α)
    (x : Evaluation.Run σ α) : Prop :=
  ∀ s entries, ∃ more, y.run ⟨s, chain, entries⟩ =
      some ((x.run s).1, ⟨(x.run s).2, chain, entries ++ more⟩) ∧
    ∀ entry ∈ more, e.SoundChain entry.chain

namespace Tracks

open Descending

variable {σ α β ι : Type} {e : Evaluation σ} {chain : List Slot}

theorem pure (a : α) : Tracks e chain (pure a) (pure a) := by
  intro s entries
  refine ⟨[], ?_, nofun⟩
  rw [List.append_nil]
  rfl

theorem bind {y : Descending σ α} {x : Evaluation.Run σ α} {next : α → Descending σ β}
    {next' : α → Evaluation.Run σ β} (h : Tracks e chain y x)
    (hn : ∀ a, Tracks e chain (next a) (next' a)) :
    Tracks e chain (y >>= next) (x >>= next') := by
  intro s entries
  obtain ⟨more, hy, hmore⟩ := h s entries
  obtain ⟨last, hnext, hlast⟩ := hn (x.run s).1 (x.run s).2 (entries ++ more)
  refine ⟨more ++ last, ?_, List.forall_mem_append.mpr ⟨hmore, hlast⟩⟩
  rw [StateT.run_bind, hy, ← List.append_assoc]
  exact hnext

theorem within (x : Evaluation.Run σ α) : Tracks e chain (Descending.within x) x := by
  intro s entries
  refine ⟨[], ?_, nofun⟩
  rw [List.append_nil]
  rfl

theorem entered {y : Descending σ α} {x : Evaluation.Run σ α} (hchain : e.SoundChain chain)
    (callee : Callee) (h : Tracks e chain y x) :
    Tracks e chain (do Descending.enter callee; y) x := by
  intro s entries
  obtain ⟨more, hy, hmore⟩ := h s (entries ++ [⟨callee, chain⟩])
  refine ⟨⟨callee, chain⟩ :: more, ?_, List.forall_mem_cons.mpr ⟨hchain, hmore⟩⟩
  rw [List.append_assoc] at hy
  exact hy

theorem inside {y : Descending σ α} {x : Evaluation.Run σ α} {slot : Slot}
    (h : Tracks e (slot :: chain) y x) : Tracks e chain (Descending.inside slot y) x := by
  intro s entries
  obtain ⟨more, hy, hmore⟩ := h s entries
  refine ⟨more, ?_, hmore⟩
  show ((y.run ⟨s, slot :: chain, entries⟩).bind _) = _
  rw [hy]
  rfl

theorem look {x : Evaluation.Run σ α} {next : Descent σ → Descending σ α}
    (h : ∀ d, d.chain = chain → Tracks e chain (next d) x) : Tracks e chain (get >>= next) x :=
  fun s entries => h ⟨s, chain, entries⟩ rfl s entries

theorem flatMap [Shown α] [Shown β] {next : α → Descending σ (Traced β)}
    {next' : α → Evaluation.Run σ (Traced β)} (label : String) (x : Traced α)
    (hn : ∀ a, Tracks e chain (next a) (next' a)) :
    Tracks e chain (x.flatMap next label) (x.flatMap next' label) := by
  cases x with
  | failed fault => exact pure _
  | success a l children => exact (hn a).bind fun y => pure _

theorem entryParts [Shown α] {f : ι → Descending σ (Traced α)}
    {g : ι → Evaluation.Run σ (Traced α)} (hf : ∀ i, Tracks e chain (f i) (g i))
    (entries : List (String × ι)) :
    Tracks e chain (Traced.entryParts f entries) (Traced.entryParts g entries) := by
  induction entries with
  | nil => exact pure _
  | cons entry entries ih =>
    refine (hf entry.2).bind fun x => ?_
    cases x with
    | failed fault => exact pure _
    | success a l children => exact ih.bind fun parts => pure _

theorem traverse [Shown α] {f : ι → Descending σ (Traced α)}
    {g : ι → Evaluation.Run σ (Traced α)} (label : String)
    (hf : ∀ i, Tracks e chain (f i) (g i)) (entries : List (String × ι)) :
    Tracks e chain (Traced.traverse f label entries) (Traced.traverse g label entries) := by
  refine (entryParts hf entries).bind fun parts => ?_
  cases parts with
  | ok parts => exact pure _
  | error fault => exact pure _

theorem termWith (hchain : e.SoundChain chain) {deref : Slot → Descending σ (Traced Value)}
    {deref' : Slot → Evaluation.Run σ (Traced Value)}
    (hderef : ∀ slot, Tracks e chain (deref slot) (deref' slot)) (t : Term Slot) :
    Tracks e chain (e.descendWith deref t) (e.termWith deref' t) := by
  induction t with
  | string text | number n | request key => exact (pure _).entered hchain _
  | attr slot => exact (hderef slot).entered hchain _
  | coerce operand kind ih => exact (ih.bind fun x => pure _).entered hchain _
  | binary op lhs rhs ihl ihr =>
    exact (ihl.bind fun x => ihr.bind fun y => pure _).entered hchain _
  | rest url method params =>
    have hcall (values : List (String × Value)) :
        Tracks e chain (Descending.within (e.call url method values)) (e.call url method values) :=
      within _
    exact ((traverse "params" hderef params).bind fun values =>
      flatMap _ values hcall).entered hchain _

/-- By induction on the fuel. Each attribute on the chain takes up one unit of it, and it is not used
up, as a sound chain has no room for more attributes than there was fuel. -/
theorem attrAt (fuel room : Nat) (slot : Slot) (hchain : e.SoundChain chain)
    (hroom : chain.length + room = e.depthLimit)
    (hfuel : min e.depthLimit e.set.attributes.length < fuel + chain.length) :
    Tracks e chain (e.descendAttr fuel slot) (e.attrAt room chain slot) := by
  induction fuel generalizing chain room slot with
  | zero =>
    have hshort := hchain.short
    omega
  | succ fuel ih =>
    refine entered hchain _ ?_
    unfold Evaluation.attrAt
    cases ha : e.set.attributes[slot]? with
    | none => exact pure _
    | some a =>
      have hslot : slot < e.set.attributes.length := (List.getElem?_eq_some_iff.mp ha).1
      refine look fun d hd => ?_
      subst hd
      dsimp only
      split
      · exact pure _
      · next hnew =>
        cases room with
        | zero =>
          have hfull : e.depthLimit ≤ d.chain.length := Nat.le_of_eq hroom.symm
          rw [if_pos hfull]
          exact pure _
        | succ room =>
          have hlimit : d.chain.length < e.depthLimit := by omega
          have hchain' := hchain.cons (mt List.contains_iff_mem.mpr hnew) hslot hlimit
          have hlength : (slot :: d.chain).length = d.chain.length + 1 := List.length_cons
          rw [if_neg (Nat.not_le.mpr hlimit)]
          refine (inside (termWith hchain' (fun next => ?_) a.value)).bind fun x => pure _
          exact ih room next hchain' (by omega) (by omega)

end Tracks

namespace Evaluation

variable {σ : Type}

/-- Whatever refers to what, the evaluation of a term comes to an end. Fuel for one attribute more
than the limit allows or the rule set holds suffices, and every call on the way finds a sound chain.
In whatever state, no call leaves another chain than it found. -/
theorem reduction_ends (e : Evaluation σ) (t : Term Slot) (s : Session σ) :
    (∀ fuel, min e.depthLimit e.set.attributes.length < fuel →
      ∃ entries, (e.descend fuel t).run ⟨s, [], []⟩ =
          some (((e.term t).run s).1, ⟨((e.term t).run s).2, [], entries⟩) ∧
        ∀ entry ∈ entries, e.SoundChain entry.chain) ∧
    ∀ fuel d x d',
      ((e.descend fuel t).run d = some (x, d') → d'.chain = d.chain) ∧
      ∀ slot, (e.descendAttr fuel slot).run d = some (x, d') → d'.chain = d.chain := by
  refine ⟨fun fuel hfuel => ?_, fun fuel d x d' => ⟨?_, fun slot => ?_⟩⟩
  · have hattr (slot : Slot) : Tracks e [] (e.descendAttr fuel slot) (e.attrAt e.depthLimit [] slot) :=
      Tracks.attrAt fuel e.depthLimit slot soundChain_nil (Nat.zero_add _) hfuel
    exact Tracks.termWith soundChain_nil hattr t s []
  · exact Restores.descend fuel t d x d'
  · exact Restores.descendAttr fuel slot d x d'

/-- Two attributes that refer to each other, the second one to itself and to no attribute as well. -/
def tangled : Evaluation Unit :=
  ⟨⟨[⟨"first", .binary .plus (.attr 1) (.attr 1)⟩,
      ⟨"second", .rest "http://second" .get [("self", 1), ("first", 0), ("none", 7)]⟩], []⟩, [],
    .disabled, 1000⟩

/-- Three units of fuel suffice, whatever the limit. Each of the two operands finds the cycle at the
first parameter. -/
theorem tangled_ends :
    (∃ entries, (tangled.descend 3 (.attr 0)).run ⟨⟨(), []⟩, [], []⟩ =
        some (.failed (.cycle "second"), ⟨⟨(), []⟩, [], entries⟩) ∧
      (∀ entry ∈ entries, tangled.SoundChain entry.chain)) ∧
    ((tangled.descendAttr 2 0).run ⟨⟨(), []⟩, [1], []⟩).map (·.2.chain) = some [1] := by
  obtain ⟨hends, hkeeps⟩ := reduction_ends tangled (.attr 0) ⟨(), []⟩
  refine ⟨hends 3 (by decide), ?_⟩
  cases hrun : (tangled.descendAttr 2 0).run ⟨⟨(), []⟩, [1], []⟩ with
  | none => cases hrun
  | some found => exact congrArg some ((hkeeps 2 _ found.1 found.2).2 0 hrun)

end Evaluation

end Policy
