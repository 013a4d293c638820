import Policy.Proofs.Evaluation.Running
import Policy.Proofs.Traced

namespace Policy.Traced

/-! ## Programs of combinators -/

/-- A type of results that an explanation can show. -/
structure Shape where
  Carrier : Type
  shown : Shown Carrier

instance (S : Shape) : Shown S.Carrier := S.shown

abbrev Shape.of (α : Type) [shown : Shown α] : Shape := ⟨α, shown⟩

/-- Entries of the given shapes, top first. -/
def Stack (E : Type → Type) : List Shape → Type
  | [] => Unit
  | S :: Γ => E S.Carrier × Stack E Γ

namespace Stack

variable {E F : Type → Type} {S : Shape} {Γ : List Shape}

def push (stack : Stack E Γ) (top : E S.Carrier) : Stack E (S :: Γ) := (top, stack)

/-- The stack with each entry passed through `f`. -/
def map (f : ∀ S : Shape, E S.Carrier → F S.Carrier) :
    {Γ : List Shape} → Stack E Γ → Stack F Γ
  | [], _ => ()
  | S :: _, (x, rest) => (f S x, map f rest)

/-- So many entries from the top, the lowest one first, and the stack below them. -/
def split : (count : Nat) → Stack E (List.replicate count S ++ Γ) →
    List (E S.Carrier) × Stack E Γ
  | 0, stack => ([], stack)
  | count + 1, (x, stack) =>
    let (xs, rest) := split count stack
    (xs ++ [x], rest)

theorem split_map (f : ∀ S : Shape, E S.Carrier → F S.Carrier) (count : Nat)
    (stack : Stack E (List.replicate count S ++ Γ)) :
    split count (stack.map f) = ((split count stack).1.map (f S), (split count stack).2.map f) := by
  induction count with
  | zero => rfl
  | succ count ih =>
    obtain ⟨x, stack⟩ := stack
    show ((split count (stack.map f)).1 ++ [f S x], (split count (stack.map f)).2) = _
    rw [ih]
    simp only [split, List.map_append]
    rfl

end Stack

/-- A step that takes its operands from the top of the stack and leaves its result there.
Continuations share a state of type `σ`. -/
inductive Instruction (σ : Type) : List Shape → List Shape → Type 1
  | success {S : Shape} {Γ : List Shape} (value : S.Carrier) (label : String) :
    Instruction σ Γ (S :: Γ)
  | failure {S : Shape} {Γ : List Shape} (fault : Fault) : Instruction σ Γ (S :: Γ)
  | map {S T : Shape} {Γ : List Shape} (f : S.Carrier → T.Carrier) (label : String) :
    Instruction σ (S :: Γ) (T :: Γ)
  | tryMap {S T : Shape} {Γ : List Shape} (f : S.Carrier → Except Fault T.Carrier)
    (label : String) : Instruction σ (S :: Γ) (T :: Γ)
  | combine {S T U : Shape} {Γ : List Shape}
    (f : S.Carrier → T.Carrier → Except Fault U.Carrier) (label : String) :
    Instruction σ (T :: S :: Γ) (U :: Γ)
  | flatMap {S T : Shape} {Γ : List Shape} (f : S.Carrier → StateM σ (Traced T.Carrier))
    (label : String) : Instruction σ (S :: Γ) (T :: Γ)
  | aggregate {S T : Shape} {Γ : List Shape} (count : Nat) (f : List S.Carrier → T.Carrier)
    (label : String) : Instruction σ (List.replicate count S ++ Γ) (T :: Γ)
  | traverse {S : Shape} {Γ : List Shape} {ι : Type} [Shown (List (String × S.Carrier))]
    (f : ι → StateM σ (Traced S.Carrier)) (label : String) (entries : List (String × ι)) :
    Instruction σ Γ (Shape.of (List (String × S.Carrier)) :: Γ)

/-- Steps one after the other, each on the stack that the one before left behind. -/
inductive Program (σ : Type) : List Shape → List Shape → Type 1
  | done {Γ : List Shape} : Program σ Γ Γ
  | next {Γ Δ Θ : List Shape} (first : Instruction σ Γ Δ) (rest : Program σ Δ Θ) : Program σ Γ Θ

variable {σ : Type} {Γ Δ : List Shape}

def Instruction.run : {Γ Δ : List Shape} → Instruction σ Γ Δ → Stack Traced Γ →
    StateM σ (Stack Traced Δ)
  | _, _, success value label, stack => pure (stack.push (leaf value label))
  | _, _, failure fault, stack => pure (stack.push (failed fault))
  | _, _, map f label, (x, stack) => pure (stack.push (x.map f label))
  | _, _, tryMap f label, (x, stack) => pure (stack.push (x.tryMap f label))
  | _, _, combine f label, (y, x, stack) => pure (stack.push (Traced.combine f label x y))
  | _, _, flatMap f label, (x, stack) => do
    let y ← x.flatMap f label
    pure (stack.push y)
  | _, _, aggregate count f label, stack =>
    let (xs, rest) := stack.split count
    pure (rest.push (Traced.aggregate f label xs))
  | _, _, traverse f label entries, stack => do
    let x ← Traced.traverse f label entries
    pure (stack.push x)

def Program.run : {Γ Δ : List Shape} → Program σ Γ Δ → Stack Traced Γ →
    StateM σ (Stack Traced Δ)
  | _, _, done, stack => pure stack
  | _, _, next first rest, stack => do
    let stack ← first.run stack
    rest.run stack

/-! ## The same programs with plain errors -/

section Plain

variable {α β ι : Type}

/-- Goes on with a value. A fault is handed on. -/
def onward (f : α → StateM σ (Except Fault β)) : Except Fault α → StateM σ (Except Fault β)
  | .ok a => f a
  | .error fault => pure (.error fault)

/-- Takes up named entries one by one. A fault ends it. -/
def named (f : ι → StateM σ (Except Fault α)) :
    List (String × ι) → StateM σ (Except Fault (List (String × α)))
  | [] => pure (.ok [])
  | (name, entry) :: entries => do
    let x ← f entry
    onward (fun a => do
      let rest ← named f entries
      pure (rest.map ((name, a) :: ·))) x

end Plain

/-- A step on values and faults alone. -/
def Instruction.plain : {Γ Δ : List Shape} → Instruction σ Γ Δ → Stack (Except Fault) Γ →
    StateM σ (Stack (Except Fault) Δ)
  | _, _, success value _, stack => pure (stack.push (.ok value))
  | _, _, failure fault, stack => pure (stack.push (.error fault))
  | _, _, map f _, (x, stack) => pure (stack.push (x.map f))
  | _, _, tryMap f _, (x, stack) => pure (stack.push (x >>= f))
  | _, _, combine f _, (y, x, stack) =>
    pure (stack.push (do
      let a ← x
      let b ← y
      f a b))
  | _, _, flatMap f _, (x, stack) => do
    let y ← onward (fun a => result <$> f a) x
    pure (stack.push y)
  | _, _, aggregate count f _, stack =>
    let (xs, rest) := stack.split count
    pure (rest.push ((xs.mapM id).map f))
  | _, _, traverse f _ entries, stack => do
    let x ← named (fun entry => result <$> f entry) entries
    pure (stack.push x)

def Program.plain : {Γ Δ : List Shape} → Program σ Γ Δ → Stack (Except Fault) Γ →
    StateM σ (Stack (Except Fault) Δ)
  | _, _, done, stack => pure stack
  | _, _, next first rest, stack => do
    let stack ← first.plain stack
    rest.plain stack

/-! ## The same programs on values with their trees -/

/-- A value with its tree, or a fault. -/
abbrev Told (α : Type) := Except Fault (α × Explanation)

namespace Told

variable {α β γ : Type}

/-- A value with the tree that shows it above others. -/
def above [Shown α] (label : String) (children : List Explanation) (value : α) : α × Explanation :=
  (value, .node (Shown.finding value) label children)

def tryMap [Shown β] (f : α → Except Fault β) (label : String) (x : Told α) : Told β :=
  x.bind fun (a, tree) => (f a).map (above label [tree])

def combine [Shown γ] (f : α → β → Except Fault γ) (label : String) (x : Told α) (y : Told β) :
    Told γ :=
  x.bind fun (a, left) => y.bind fun (b, right) => (f a b).map (above label [left, right])

def flatMap [Shown β] (f : α → StateM σ (Told β)) (label : String) (x : Told α) :
    StateM σ (Told β) :=
  onward (fun (a, original) => do
    let y ← f a
    pure (y.map fun (b, inner) => above label [original, inner] b)) x

def aggregate [Shown β] (f : List α → β) (label : String) (xs : List (Told α)) : Told β :=
  (List.mapM (m := Except Fault) id xs).map fun parts =>
    above label (parts.map Prod.snd) (f (parts.map Prod.fst))

def traverse {ι : Type} [Shown (List (String × α))] (f : ι → StateM σ (Told α)) (label : String)
    (entries : List (String × ι)) : StateM σ (Told (List (String × α))) := do
  let x ← named f entries
  pure (x.map fun parts =>
    above label (parts.map fun p => p.2.2) (parts.map fun p => (p.1, p.2.1)))

end Told

/-- A step on values that carry their trees along. The tree of a result has those of its operands
below it, in their order. -/
def Instruction.told : {Γ Δ : List Shape} → Instruction σ Γ Δ → Stack Told Γ →
    StateM σ (Stack Told Δ)
  | _, _, success value label, stack => pure (stack.push (.ok (Told.above label [] value)))
  | _, _, failure fault, stack => pure (stack.push (.error fault))
  | _, _, map f label, (x, stack) => pure (stack.push (Told.tryMap (fun a => .ok (f a)) label x))
  | _, _, tryMap f label, (x, stack) => pure (stack.push (Told.tryMap f label x))
  | _, _, combine f label, (y, x, stack) => pure (stack.push (Told.combine f label x y))
  | _, _, flatMap f label, (x, stack) => do
    let y ← Told.flatMap (fun a => parts <$> f a) label x
    pure (stack.push y)
  | _, _, aggregate count f label, stack =>
    let (xs, rest) := stack.split count
    pure (rest.push (Told.aggregate f label xs))
  | _, _, traverse f label entries, stack => do
    let x ← Told.traverse (fun entry => parts <$> f entry) label entries
    pure (stack.push x)

def Program.told : {Γ Δ : List Shape} → Program σ Γ Δ → Stack Told Γ → StateM σ (Stack Told Δ)
  | _, _, done, stack => pure stack
  | _, _, next first rest, stack => do
    let stack ← first.told stack
    rest.told stack

/-! ## Each step agrees -/

section Shown

variable {α β γ ι : Type} [Shown α] [Shown β]

theorem parts_ofResult (label : String) (children : List Explanation) (r : Except Fault β) :
    (ofResult label children r).parts = r.map (Told.above label children) := by
  cases r with
  | error fault => rfl
  | ok b => rfl

theorem parts_tryMap (f : α → Except Fault β) (label : String) (x : Traced α) :
    (x.tryMap f label).parts = Told.tryMap f label x.parts := by
  cases x with
  | failed fault => rfl
  | success a l children => exact parts_ofResult label _ (f a)

theorem parts_combine [Shown γ] (f : α → β → Except Fault γ) (label : String) (x : Traced α)
    (y : Traced β) : (combine f label x y).parts = Told.combine f label x.parts y.parts := by
  cases x with
  | failed fault => rfl
  | success a l children =>
    cases y with
    | failed fault => rfl
    | success b l' children' => exact parts_ofResult label _ (f a b)

theorem parts_follow (label : String) (original : Explanation) (x : Traced β) :
    (x.follow label original).parts =
      x.parts.map fun (b, inner) => Told.above label [original, inner] b := by
  cases x with
  | failed fault => rfl
  | success b l children => rfl

theorem allParts_eq_mapM (xs : List (Traced α)) : allParts xs = (xs.map parts).mapM id := by
  induction xs with
  | nil => rfl
  | cons x xs ih =>
    rw [List.map_cons, List.mapM_cons, ← ih]
    rfl

theorem parts_aggregate (f : List α → β) (label : String) (xs : List (Traced α)) :
    (aggregate f label xs).parts = Told.aggregate f label (xs.map parts) := by
  rw [Told.aggregate, ← allParts_eq_mapM, aggregate]
  cases allParts xs with
  | error fault => rfl
  | ok parts => rfl

theorem result_flatMap (f : α → StateM σ (Traced β)) (label : String) (x : Traced α) :
    result <$> x.flatMap f label = onward (fun a => result <$> f a) x.result := by
  cases x with
  | failed fault => rfl
  | success a l children =>
    funext s
    exact Prod.ext (result_follow label _ ((f a).run s).1) rfl

theorem parts_flatMap (f : α → StateM σ (Traced β)) (label : String) (x : Traced α) :
    parts <$> x.flatMap f label = Told.flatMap (fun a => parts <$> f a) label x.parts := by
  cases x with
  | failed fault => rfl
  | success a l children =>
    funext s
    exact Prod.ext (parts_follow label _ ((f a).run s).1) rfl

/-- Entries are taken up alike, whatever is made of their values. -/
theorem named_map {δ : Type} (g : γ → δ) (f : ι → StateM σ (Except Fault γ))
    (entries : List (String × ι)) :
    named (fun entry => Except.map g <$> f entry) entries =
      Except.map (List.map fun p => (p.1, g p.2)) <$> named f entries := by
  induction entries with
  | nil => rfl
  | cons entry entries ih =>
    obtain ⟨name, i⟩ := entry
    simp only [named, ih, map_bind, bind_map_left]
    congr 1
    funext x
    cases x with
    | error fault => rfl
    | ok a =>
      simp only [Except.map, onward, map_bind, map_pure]
      congr 1
      funext r
      cases r with
      | error fault => rfl
      | ok rest => rfl

theorem entryParts_eq_named (f : ι → StateM σ (Traced α)) (entries : List (String × ι)) :
    entryParts f entries = Except.map (List.map fun p => ((p.1, p.2.1), p.2.2)) <$>
      named (fun entry => parts <$> f entry) entries := by
  induction entries with
  | nil => rfl
  | cons entry entries ih =>
    obtain ⟨name, i⟩ := entry
    simp only [entryParts, named, ih, map_bind, bind_map_left]
    congr 1
    funext x
    cases x with
    | failed fault => rfl
    | success a l children =>
      simp only [parts, onward, map_bind, map_pure]
      congr 1
      funext r
      cases r with
      | error fault => rfl
      | ok rest => rfl

theorem parts_traverse [Shown (List (String × α))] (f : ι → StateM σ (Traced α)) (label : String)
    (entries : List (String × ι)) :
    parts <$> traverse f label entries =
      Told.traverse (fun entry => parts <$> f entry) label entries := by
  simp only [traverse, Told.traverse, entryParts_eq_named, map_bind, bind_map_left]
  congr 1
  funext r
  cases r with
  | error fault => rfl
  | ok parts =>
    simp only [Except.map, List.map_map]
    rfl

theorem result_traverse [Shown (List (String × α))] (f : ι → StateM σ (Traced α)) (label : String)
    (entries : List (String × ι)) :
    result <$> traverse f label entries = named (fun entry => result <$> f entry) entries := by
  have hresult {γ : Type} [Shown γ] (x : StateM σ (Traced γ)) :
      result <$> x = Except.map Prod.fst <$> parts <$> x := by
    rw [← comp_map]
    exact congrArg (· <$> x) (funext result_eq_parts)
  simp only [hresult]
  rw [parts_traverse, named_map, Told.traverse, bind_pure_comp, ← comp_map]
  congr 1
  funext r
  cases r with
  | error fault => rfl
  | ok parts => rfl

end Shown

/-! ## Programs agree -/

/-- Entries are passed through `f` before one more is put on top, or behind that. -/
theorem Stack.map_push {E F : Type → Type} {S : Shape}
    (f : ∀ S : Shape, E S.Carrier → F S.Carrier) (x : StateM σ (E S.Carrier))
    (stack : Stack E Γ) :
    (do let y ← f S <$> x; pure ((stack.map f).push y)) =
      map f <$> (do let y ← x; pure (stack.push y)) := by
  rw [bind_map_left, map_bind]
  rfl

/-- The stack without its explanations. -/
def Stack.results : {Γ : List Shape} → Stack Traced Γ → Stack (Except Fault) Γ :=
  map fun _ => result

/-- The stack with each result next to its own explanation. -/
def Stack.parts : {Γ : List Shape} → Stack Traced Γ → Stack Told Γ :=
  map fun _ => Traced.parts

theorem Instruction.plain_results (i : Instruction σ Γ Δ) (stack : Stack Traced Γ) :
    i.plain stack.results = Stack.results <$> i.run stack := by
  cases i with
  | success value label => rfl
  | failure fault => rfl
  | map f label =>
    obtain ⟨x, stack⟩ := stack
    have hx : (x.map f label).result = x.result.map f := result_map f label x
    exact congrArg (fun r => pure (stack.results.push r)) hx.symm
  | tryMap f label =>
    obtain ⟨x, stack⟩ := stack
    exact congrArg (fun r => pure (stack.results.push r)) (result_tryMap f label x).symm
  | combine f label =>
    obtain ⟨y, x, stack⟩ := stack
    exact congrArg (fun r => pure (stack.results.push r)) (result_combine f label x y).symm
  | flatMap f label =>
    obtain ⟨x, stack⟩ := stack
    have hpush := Stack.map_push (fun _ => result) (x.flatMap f label) stack
    rw [result_flatMap] at hpush
    exact hpush
  | aggregate count f label =>
    have hsplit := Stack.split_map (fun _ => result) count stack
    simp only [plain, run, Stack.results, hsplit]
    have hx := result_aggregate f label (stack.split count).1
    rw [results_eq_mapM] at hx
    exact congrArg (fun r => pure ((stack.split count).2.results.push r)) hx.symm
  | @traverse S _ _ _ f label entries =>
    have hpush := Stack.map_push (S := Shape.of (List (String × S.Carrier))) (fun _ => result)
      (Traced.traverse f label entries) stack
    simp only [Shape.of] at hpush
    rw [result_traverse] at hpush
    exact hpush

theorem Instruction.told_parts (i : Instruction σ Γ Δ) (stack : Stack Traced Γ) :
    i.told stack.parts = Stack.parts <$> i.run stack := by
  cases i with
  | success value label => rfl
  | failure fault => rfl
  | map f label =>
    obtain ⟨x, stack⟩ := stack
    exact congrArg (fun r => pure (stack.parts.push r)) (parts_tryMap _ label x).symm
  | tryMap f label =>
    obtain ⟨x, stack⟩ := stack
    exact congrArg (fun r => pure (stack.parts.push r)) (parts_tryMap f label x).symm
  | combine f label =>
    obtain ⟨y, x, stack⟩ := stack
    exact congrArg (fun r => pure (stack.parts.push r)) (parts_combine f label x y).symm
  | flatMap f label =>
    obtain ⟨x, stack⟩ := stack
    have hpush := Stack.map_push (F := Told) (fun _ => Traced.parts) (x.flatMap f label) stack
    rw [parts_flatMap] at hpush
    exact hpush
  | aggregate count f label =>
    have hsplit := Stack.split_map (F := Told) (fun _ => Traced.parts) count stack
    simp only [told, run, Stack.parts, hsplit]
    have hx := parts_aggregate f label (stack.split count).1
    exact congrArg (fun r => pure ((stack.split count).2.parts.push r)) hx.symm
  | @traverse S _ _ _ f label entries =>
    have hpush := Stack.map_push (S := Shape.of (List (String × S.Carrier))) (F := Told)
      (fun _ => Traced.parts) (Traced.traverse f label entries) stack
    simp only [Shape.of] at hpush
    rw [parts_traverse] at hpush
    exact hpush

theorem Program.plain_results (p : Program σ Γ Δ) (stack : Stack Traced Γ) :
    p.plain stack.results = Stack.results <$> p.run stack := by
  induction p with
  | done => rfl
  | next first rest ih =>
    rw [plain, run, first.plain_results, bind_map_left, map_bind]
    exact congrArg _ (funext ih)

theorem Program.told_parts (p : Program σ Γ Δ) (stack : Stack Traced Γ) :
    p.told stack.parts = Stack.parts <$> p.run stack := by
  induction p with
  | done => rfl
  | next first rest ih =>
    rw [told, run, first.told_parts, bind_map_left, map_bind]
    exact congrArg _ (funext ih)

/-! ## How often continuations run -/

/-- The same computation, which also counts that it ran. -/
def counting {α : Type} (x : StateM σ α) : StateM (σ × Nat) α :=
  modifyGet fun s => ((x.run s.1).1, ((x.run s.1).2, s.2 + 1))

def Instruction.counted : {Γ Δ : List Shape} → Instruction σ Γ Δ → Instruction (σ × Nat) Γ Δ
  | _, _, success value label => success value label
  | _, _, failure fault => failure fault
  | _, _, map f label => map f label
  | _, _, tryMap f label => tryMap f label
  | _, _, combine f label => combine f label
  | _, _, flatMap f label => flatMap (fun a => counting (f a)) label
  | _, _, aggregate count f label => aggregate count f label
  | _, _, traverse f label entries => traverse (fun i => counting (f i)) label entries

/-- The same program, which also counts how often its continuations run. -/
def Program.counted : {Γ Δ : List Shape} → Program σ Γ Δ → Program (σ × Nat) Γ Δ
  | _, _, done => done
  | _, _, next first rest => next first.counted rest.counted

/-- The second computation does what the first one does, next to a count. -/
def Counted {α : Type} (x : StateM σ α) (y : StateM (σ × Nat) α) : Prop :=
  ∀ s n, ∃ m, y.run (s, n) = ((x.run s).1, ((x.run s).2, m))

namespace Counted

variable {α β ι : Type}

theorem pure (a : α) : Counted (pure a : StateM σ α) (pure a) := fun _ n => ⟨n, rfl⟩

theorem bind {x : StateM σ α} {y : StateM (σ × Nat) α} {next : α → StateM σ β}
    {next' : α → StateM (σ × Nat) β} (h : Counted x y) (hn : ∀ a, Counted (next a) (next' a)) :
    Counted (x >>= next) (y >>= next') := by
  intro s n
  obtain ⟨m, hm⟩ := h s n
  rw [run_bind, run_bind, hm]
  exact hn _ _ _

theorem of_counting (x : StateM σ α) : Counted x (counting x) := fun _ n => ⟨n + 1, rfl⟩

variable [Shown α] [Shown β]

theorem flatMap (f : α → StateM σ (Traced β)) (label : String) (x : Traced α) :
    Counted (x.flatMap f label) (x.flatMap (fun a => counting (f a)) label) := by
  cases x with
  | failed fault => exact pure _
  | success a l children => exact (of_counting (f a)).bind fun y => pure _

theorem entryParts (f : ι → StateM σ (Traced α)) (entries : List (String × ι)) :
    Counted (entryParts f entries) (Traced.entryParts (fun i => counting (f i)) entries) := by
  induction entries with
  | nil => exact pure _
  | cons entry entries ih =>
    refine (of_counting (f entry.2)).bind fun x => ?_
    cases x with
    | failed fault => exact pure _
    | success a l children => exact ih.bind fun parts => pure _

theorem traverse (f : ι → StateM σ (Traced α)) (label : String) (entries : List (String × ι)) :
    Counted (traverse f label entries) (Traced.traverse (fun i => counting (f i)) label entries) := by
  refine (entryParts f entries).bind fun parts => ?_
  cases parts with
  | error fault => exact pure _
  | ok parts => exact pure _

end Counted

theorem Instruction.counted_run (i : Instruction σ Γ Δ) (stack : Stack Traced Γ) :
    Counted (i.run stack) (i.counted.run stack) := by
  cases i with
  | success value label | failure fault | map f label | tryMap f label | combine f label
  | aggregate count f label => exact .pure _
  | flatMap f label => exact (Counted.flatMap f label stack.1).bind fun y => .pure _
  | traverse f label entries => exact (Counted.traverse f label entries).bind fun x => .pure _

theorem Program.counted_run (p : Program σ Γ Δ) (stack : Stack Traced Γ) :
    Counted (p.run stack) (p.counted.run stack) := by
  induction p with
  | done => exact .pure _
  | next first rest ih => exact (first.counted_run stack).bind ih

/-- Whatever the program, the stack that it leaves has the values and faults that plain error
handling comes to, in the same state of the continuations, which ran as often as they do there. The
explanation of each value is the tree in which every step put the trees of its operands, each once
and in order, below its own. -/
theorem tracing_commutes (p : Program σ Γ Δ) (stack : Stack Traced Γ) (s : σ) :
    ∃ after s' runs, (p.run stack).run s = (after, s') ∧
      (p.plain stack.results).run s = (after.results, s') ∧
      (p.told stack.parts).run s = (after.parts, s') ∧
      (p.counted.run stack).run (s, 0) = (after, (s', runs)) ∧
      (p.counted.plain stack.results).run (s, 0) = (after.results, (s', runs)) := by
  obtain ⟨runs, hruns⟩ := p.counted_run stack s 0
  refine ⟨((p.run stack).run s).1, ((p.run stack).run s).2, runs, rfl, ?_, ?_, hruns, ?_⟩
  · rw [p.plain_results]
    rfl
  · rw [p.told_parts]
    rfl
  · rw [p.counted.plain_results]
    exact congrArg (fun r => (r.1.results, r.2)) hruns

end Policy.Traced
