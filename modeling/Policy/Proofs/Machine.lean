import Policy.Proofs.Programs
import Policy.Traced.Machine

namespace Policy.Traced

/-! ## Stacks of values -/

/-- So many values. -/
abbrev values (count : Nat) : List Shape := List.replicate count (Shape.of Value)

/-- The stack has these entries, top first. -/
inductive Holds : {Γ : List Shape} → Stack Traced Γ → List (Traced Value) → Prop
  | nil : @Holds [] () []
  | push {Γ : List Shape} {stack : Stack Traced Γ} {xs : List (Traced Value)} (x : Traced Value)
    (h : Holds stack xs) : @Holds (Shape.of Value :: Γ) (x, stack) (x :: xs)

namespace Holds

variable {Γ : List Shape} {xs : List (Traced Value)}

theorem pop {stack : Stack Traced (Shape.of Value :: Γ)} (h : Holds stack xs) :
    ∃ x rest ys, stack = (x, rest) ∧ xs = x :: ys ∧ Holds rest ys := by
  cases h with
  | push x h => exact ⟨x, _, _, rfl, rfl, h⟩

theorem length {stack : Stack Traced Γ} (h : Holds stack xs) : xs.length = Γ.length := by
  induction h with
  | nil => rfl
  | push x h ih => rw [List.length_cons, List.length_cons, ih]

theorem exists_stack {n : Nat} (hxs : xs.length = n) :
    ∃ stack : Stack Traced (values n), Holds stack xs := by
  subst hxs
  induction xs with
  | nil => exact ⟨(), .nil⟩
  | cons x xs ih =>
    obtain ⟨stack, h⟩ := ih
    exact ⟨(x, stack), .push x h⟩

theorem results_eq_iff {stack stack' : Stack Traced Γ} {xs' : List (Traced Value)}
    (h : Holds stack xs) (h' : Holds stack' xs') :
    stack.results = stack'.results ↔ xs.map result = xs'.map result := by
  induction h generalizing xs' with
  | nil =>
    cases h'
    exact iff_of_true rfl rfl
  | @push Γ rest xs x h ih =>
    obtain ⟨x', rest', ys, rfl, rfl, hrest⟩ := h'.pop
    rw [List.map_cons, List.map_cons, List.cons_eq_cons, ← ih hrest]
    exact Prod.ext_iff

theorem split {count : Nat} {stack : Stack Traced (values count ++ Γ)} (h : Holds stack xs) :
    count ≤ xs.length ∧ (stack.split count).1 = (xs.take count).reverse ∧
      Holds (stack.split count).2 (xs.drop count) := by
  induction count generalizing xs with
  | zero => exact ⟨Nat.zero_le _, rfl, h⟩
  | succ count ih =>
    obtain ⟨x, rest, ys, rfl, rfl, hrest⟩ := h.pop
    obtain ⟨hcount, htop, hbelow⟩ := ih hrest
    refine ⟨Nat.succ_le_succ hcount, ?_, hbelow⟩
    rw [List.take_succ_cons, List.reverse_cons, ← htop]
    rfl

end Holds

/-! ## Programs one after the other -/

section Append

variable {σ : Type} {Γ Δ Θ : List Shape}

def Program.append : {Γ Δ : List Shape} → Program σ Γ Δ → Program σ Δ Θ → Program σ Γ Θ
  | _, _, done, q => q
  | _, _, next first rest, q => next first (rest.append q)

theorem Program.run_append (p : Program σ Γ Δ) (q : Program σ Δ Θ) (stack : Stack Traced Γ) :
    (p.append q).run stack = p.run stack >>= q.run := by
  induction p with
  | done => rfl
  | next first rest ih =>
    rw [append, run, run, bind_assoc]
    exact congrArg _ (funext fun stack => ih q stack)

theorem Program.counted_append (p : Program σ Γ Δ) (q : Program σ Δ Θ) :
    (p.append q).counted = p.counted.append q.counted := by
  induction p with
  | done => rfl
  | next first rest ih => rw [append, counted, counted, append, ih]

end Append

/-! ## What programs do -/

/-- How often a continuation ran. -/
def Visits.count : Visits → Nat
  | none => 0
  | continued ran => ran.toNat
  | entered count => count

/-- What is left of the entries of a stack, and how often continuations ran, if there are entries
enough. -/
abbrev Machine := List (Traced Value) → Option (List (Traced Value) × Nat)

/-- The program leaves on each stack what the machine leaves of its entries, and continuations run
as often. -/
def Program.Does {Γ Δ : List Shape} (p : Program Unit Γ Δ) (machine : Machine) : Prop :=
  ∀ (stack : Stack Traced Γ) (xs : List (Traced Value)) (runs : Nat), Holds stack xs →
    ∃ after ys count, machine xs = some (ys, count) ∧ Holds after ys ∧
      (p.counted.run stack).run ((), runs) = (after, ((), runs + count))

/-- The machine of a step. -/
def Step.leaves (step : Step) : Machine := fun xs =>
  (step.run xs).map fun (ys, visits) => (ys, visits.count)

/-- The last of the stacks behind a first one, and how often continuations ran on the way. -/
def ending : List (Traced Value) → List (List (Traced Value) × Visits) →
    List (Traced Value) × Nat
  | xs, [] => (xs, 0)
  | _, (ys, visits) :: states =>
    let (zs, count) := ending ys states
    (zs, visits.count + count)

/-- The machine of steps one after the other. -/
def leaves (steps : List Step) : Machine := fun xs => (runAll steps xs).map (ending xs)

theorem leaves_cons (step : Step) (steps : List Step) (xs : List (Traced Value)) :
    leaves (step :: steps) xs = (step.leaves xs).bind fun left =>
      (leaves steps left.1).map fun last => (last.1, left.2 + last.2) := by
  rw [leaves, runAll, Step.leaves]
  cases step.run xs with
  | none => rfl
  | some left =>
    obtain ⟨ys, visits⟩ := left
    show ((runAll steps ys).bind fun states => some ((ys, visits) :: states)).map (ending xs) =
      ((runAll steps ys).map (ending ys)).map fun last => (last.1, visits.count + last.2)
    cases runAll steps ys with
    | none => rfl
    | some states => rfl

/-! ## Steps as programs

The continuations of a machine keep count by themselves, those of a program are counted from
outside. -/

namespace Program

variable {Γ Δ Θ : List Shape}

theorem does_done : (done : Program Unit Γ Γ).Does (leaves []) :=
  fun stack xs _ h => ⟨stack, xs, 0, rfl, h, rfl⟩

/-- A step and the steps behind it are done by the programs for them, one after the other. -/
theorem Does.append {p : Program Unit Γ Δ} {q : Program Unit Δ Θ} {step : Step}
    {steps : List Step} (hp : p.Does step.leaves) (hq : q.Does (leaves steps)) :
    (p.append q).Does (leaves (step :: steps)) := by
  intro stack xs runs h
  obtain ⟨between, ys, count, hstep, hbetween, hfirst⟩ := hp stack xs runs h
  obtain ⟨after, zs, more, hsteps, hafter, hlast⟩ := hq between ys (runs + count) hbetween
  refine ⟨after, zs, count + more, ?_, hafter, ?_⟩
  · rw [leaves_cons, hstep, Option.bind_some, hsteps, Option.map_some]
  · rw [counted_append, run_append, run_bind, hfirst, hlast, Nat.add_assoc]

/-- On values and faults alone, the program comes to those of what is left. -/
theorem Does.plain {p : Program Unit Γ Δ} {machine : Machine} (hp : p.Does machine)
    {stack : Stack Traced Γ} {xs : List (Traced Value)} (h : Holds stack xs) :
    ∃ after ys count, machine xs = some (ys, count) ∧ Holds after ys ∧
      (p.counted.plain stack.results).run ((), 0) = (after.results, ((), count)) := by
  obtain ⟨after, ys, count, hmachine, hafter, hrun⟩ := hp stack xs 0 h
  rw [Nat.zero_add] at hrun
  refine ⟨after, ys, count, hmachine, hafter, ?_⟩
  rw [p.counted.plain_results]
  exact congrArg (fun r : Stack Traced Δ × Unit × Nat => (r.1.results, r.2)) hrun

end Program

/-- The second computation does what the first one does, and counts as the first one does. -/
def Tallies {α : Type} (x : StateM Nat α) (y : StateM (Unit × Nat) α) : Prop :=
  ∃ a count, (∀ n, x.run n = (a, n + count)) ∧ ∀ n, y.run ((), n) = (a, ((), n + count))

namespace Tallies

variable {α β ι : Type}

theorem pure (a : α) : Tallies (pure a) (pure a) := ⟨a, 0, fun _ => rfl, fun _ => rfl⟩

theorem bind {x : StateM Nat α} {y : StateM (Unit × Nat) α} {next : α → StateM Nat β}
    {next' : α → StateM (Unit × Nat) β} (h : Tallies x y) (hn : ∀ a, Tallies (next a) (next' a)) :
    Tallies (x >>= next) (y >>= next') := by
  obtain ⟨a, count, hx, hy⟩ := h
  obtain ⟨b, more, hnext, hnext'⟩ := hn a
  refine ⟨b, count + more, fun n => ?_, fun n => ?_⟩
  · rw [run_bind, hx, hnext, Nat.add_assoc]
  · rw [run_bind, hy, hnext', Nat.add_assoc]

variable [Shown α] {f : ι → StateM Nat (Traced α)} {g : ι → StateM (Unit × Nat) (Traced α)}

theorem entryParts (h : ∀ i, Tallies (f i) (g i)) (entries : List (String × ι)) :
    Tallies (entryParts f entries) (Traced.entryParts g entries) := by
  induction entries with
  | nil => exact pure _
  | cons entry entries ih =>
    refine (h entry.2).bind fun x => ?_
    cases x with
    | failed fault => exact pure _
    | success a label children => exact ih.bind fun parts => pure _

theorem traverse (h : ∀ i, Tallies (f i) (g i)) (label : String) (entries : List (String × ι)) :
    Tallies (traverse f label entries) (Traced.traverse g label entries) := by
  refine (entryParts h entries).bind fun parts => ?_
  cases parts with
  | error fault => exact pure _
  | ok parts => exact pure _

end Tallies

/-- An entry that is not counted. -/
def plainEntry : Value ⊕ String → StateM Unit (Traced Value)
  | .inl value => pure (leaf value "entry")
  | .inr message => pure (failed (told message))

theorem tallies_entry (x : Value ⊕ String) : Tallies (entry x) (counting (plainEntry x)) := by
  cases x with
  | inl value => exact ⟨leaf value "entry", 1, fun _ => rfl, fun _ => rfl⟩
  | inr message => exact ⟨failed (told message), 1, fun _ => rfl, fun _ => rfl⟩

/-- A program does what the machine does on so many values, unless they are too few for the machine.
-/
def HasProgram (n : Nat) (machine : Machine) : Prop :=
  (∃ m, ∃ p : Program Unit (values n) (values m), p.Does machine) ∨
    ∀ xs : List (Traced Value), xs.length = n → machine xs = none

namespace HasProgram

variable {step : Step}

theorem of_push (i : ∀ Γ, Instruction Unit Γ (.of Value :: Γ)) (y : Traced Value)
    (hleaves : ∀ xs, step.leaves xs = some (y :: xs, 0))
    (hrun : ∀ Γ stack runs, ((i Γ).counted.run stack).run ((), runs) = ((y, stack), ((), runs)))
    (n : Nat) : HasProgram n step.leaves :=
  .inl ⟨n + 1, .next (i _) .done, fun stack xs runs h =>
    ⟨(y, stack), y :: xs, 0, hleaves xs, .push y h, hrun _ stack runs⟩⟩

/-- A step that needs one value and puts another one in its place. -/
theorem of_unary (i : ∀ Γ, Instruction Unit (.of Value :: Γ) (.of Value :: Γ))
    (y : Traced Value → Traced Value) (count : Traced Value → Nat)
    (hempty : step.leaves [] = none)
    (hleaves : ∀ x xs, step.leaves (x :: xs) = some (y x :: xs, count x))
    (hrun : ∀ Γ x rest runs, ((i Γ).counted.run (x, rest)).run ((), runs) =
      ((y x, rest), ((), runs + count x)))
    (n : Nat) : HasProgram n step.leaves := by
  cases n with
  | zero =>
    refine .inr fun xs hxs => ?_
    rw [List.length_eq_zero_iff.mp hxs, hempty]
  | succ n =>
    refine .inl ⟨n + 1, .next (i _) .done, fun stack xs runs h => ?_⟩
    obtain ⟨x, rest, ys, rfl, rfl, hrest⟩ := h.pop
    exact ⟨(y x, rest), y x :: ys, count x, hleaves x ys, .push _ hrest, hrun _ x rest runs⟩

/-- A step that needs two values and puts one in their place. -/
theorem of_binary (i : ∀ Γ, Instruction Unit (.of Value :: .of Value :: Γ) (.of Value :: Γ))
    (z : Traced Value → Traced Value → Traced Value)
    (hempty : step.leaves [] = none) (hone : ∀ y, step.leaves [y] = none)
    (hleaves : ∀ y x xs, step.leaves (y :: x :: xs) = some (z x y :: xs, 0))
    (hrun : ∀ Γ y x rest runs, ((i Γ).counted.run (y, x, rest)).run ((), runs) =
      ((z x y, rest), ((), runs)))
    (n : Nat) : HasProgram n step.leaves := by
  match n with
  | 0 =>
    refine .inr fun xs hxs => ?_
    rw [List.length_eq_zero_iff.mp hxs, hempty]
  | 1 =>
    refine .inr fun xs hxs => ?_
    obtain ⟨y, rfl⟩ := List.length_eq_one_iff.mp hxs
    exact hone y
  | n + 2 =>
    refine .inl ⟨n + 1, .next (i _) .done, fun stack xs runs h => ?_⟩
    obtain ⟨y, below, ys, rfl, rfl, hbelow⟩ := h.pop
    obtain ⟨x, rest, xs, rfl, rfl, hrest⟩ := hbelow.pop
    exact ⟨(z x y, rest), z x y :: xs, 0, hleaves y x xs, .push _ hrest, hrun _ y x rest runs⟩

theorem of_join (count : Nat) (label : String) (n : Nat) :
    HasProgram n (Step.join count label).leaves := by
  by_cases hcount : count ≤ n
  · obtain ⟨below, rfl⟩ := Nat.exists_eq_add_of_le hcount
    rw [HasProgram, values, ← List.replicate_append_replicate]
    refine .inl ⟨below + 1, .next (.aggregate count displayed label) .done,
      fun stack xs runs h => ?_⟩
    obtain ⟨hle, htop, hbelow⟩ := h.split
    refine ⟨_, _, 0, ?_, .push (aggregate displayed label (xs.take count).reverse) hbelow, ?_⟩
    · rw [Step.leaves, Step.run, if_pos hle]
      rfl
    · rw [← htop]
      rfl
  · refine .inr fun xs hxs => ?_
    rw [Step.leaves, Step.run, hxs, if_neg hcount]
    rfl

theorem of_entries (entries : List (String × (Value ⊕ String))) (label : String) (n : Nat) :
    HasProgram n (Step.entries entries label).leaves := by
  have htallies := Tallies.traverse tallies_entry label entries
  obtain ⟨x, count, hmachine, hprogram⟩ := htallies
  let collect : Instruction Unit (values n) (.of (List (String × Value)) :: values n) :=
    @Instruction.traverse Unit (.of Value) _ _ _ plainEntry label entries
  let tally : Instruction Unit (.of (List (String × Value)) :: values n) (.of Value :: values n) :=
    @Instruction.map Unit (.of (List (String × Value))) (.of Value) _ counted "count"
  let p : Program Unit (values n) (.of Value :: values n) := .next collect (.next tally .done)
  refine .inl ⟨n + 1, p, fun stack xs runs h => ?_⟩
  refine ⟨(x.map counted "count", stack), x.map counted "count" :: xs, count, ?_, .push _ h, ?_⟩
  · rw [Step.leaves, Step.run, hmachine, Nat.zero_add]
    rfl
  · exact congrArg (fun left => ((left.1.map counted "count", stack), left.2)) (hprogram runs)

end HasProgram

/-- Each step but that over entries is a single instruction. -/
theorem Step.hasProgram (step : Step) (n : Nat) : HasProgram n step.leaves := by
  cases step with
  | push value label =>
    exact .of_push (fun _ => .success value label) _ (fun _ => rfl) (fun _ _ _ => rfl) n
  | fail message =>
    exact .of_push (fun _ => .failure (told message)) _ (fun _ => rfl) (fun _ _ _ => rfl) n
  | typeName label =>
    exact .of_unary (fun _ => .map (fun v => .string v.typeName) label) _ (fun _ => 0) rfl
      (fun _ _ => rfl) (fun _ _ _ _ => rfl) n
  | coerce kind label =>
    exact .of_unary (fun _ => .tryMap (·.coerce kind) label) _ (fun _ => 0) rfl
      (fun _ _ => rfl) (fun _ _ _ _ => rfl) n
  | apply op label =>
    exact .of_binary (fun _ => .combine (Value.apply op) label) _ rfl (fun _ => rfl)
      (fun _ _ _ => rfl) (fun _ _ _ _ _ => rfl) n
  | equals label =>
    exact .of_binary (fun _ => .combine (fun a b => .ok (.truth (a.equals b))) label) _ rfl
      (fun _ => rfl) (fun _ _ _ => rfl) (fun _ _ _ _ _ => rfl) n
  | greater label =>
    exact .of_binary (fun _ => .combine (fun a b => (a.greater b).map .truth) label) _ rfl
      (fun _ => rfl) (fun _ _ _ => rfl) (fun _ _ _ _ _ => rfl) n
  | follow op value inner label =>
    let next (lhs : Value) : StateM Unit (Traced Value) :=
      pure (ofResult inner [] (lhs.apply op value))
    let machine (x : Traced Value) := (x.flatMap (continuation op value inner) label).run false
    refine .of_unary (fun _ => .flatMap next label) (machine · |>.1) (machine · |>.2.toNat) rfl
      (fun _ _ => rfl) (fun _ x _ _ => ?_) n
    cases x with
    | success a label children => rfl
    | failed fault => rfl
  | join count label => exact .of_join count label n
  | entries entries label => exact .of_entries entries label n

/-- Whatever steps leave, a program leaves as well, by as many runs of continuations. -/
theorem hasProgram_leaves (steps : List Step) (n : Nat) : HasProgram n (leaves steps) := by
  induction steps generalizing n with
  | nil => exact .inl ⟨n, .done, Program.does_done⟩
  | cons step steps ih =>
    obtain ⟨m, p, hp⟩ | hnone := step.hasProgram n
    · obtain ⟨k, q, hq⟩ | hnone := ih m
      · exact .inl ⟨k, p.append q, hp.append hq⟩
      · refine .inr fun xs hxs => ?_
        obtain ⟨stack, h⟩ := Holds.exists_stack hxs
        obtain ⟨after, ys, count, hstep, hafter, -⟩ := hp stack xs 0 h
        have hys : ys.length = m := by rw [hafter.length, List.length_replicate]
        rw [leaves_cons, hstep, Option.bind_some, hnone ys hys]
        rfl
    · refine .inr fun xs hxs => ?_
      rw [leaves_cons, hnone xs hxs]
      rfl

/-- What steps come to without explanations is the same on stacks that come to the same without
explanations, and so is how often continuations run. -/
theorem leaves_congr {xs xs' : List (Traced Value)} (h : xs.map result = xs'.map result)
    (steps : List Step) :
    (leaves steps xs).map (fun left => (left.1.map result, left.2)) =
      (leaves steps xs').map fun left => (left.1.map result, left.2) := by
  have hlength : xs'.length = xs.length := by simpa using (congrArg List.length h).symm
  obtain ⟨m, p, hp⟩ | hnone := hasProgram_leaves steps xs.length
  · obtain ⟨stack, hstack⟩ : ∃ stack, Holds stack xs := Holds.exists_stack rfl
    obtain ⟨stack', hstack'⟩ := Holds.exists_stack hlength
    obtain ⟨after, ys, count, hleaves, hafter, hrun⟩ := hp.plain hstack
    obtain ⟨after', ys', count', hleaves', hafter', hrun'⟩ := hp.plain hstack'
    have hsame : stack.results = stack'.results := (hstack.results_eq_iff hstack').mpr h
    rw [hsame, hrun', Prod.mk.injEq] at hrun
    have hys : ys.map result = ys'.map result :=
      (hafter.results_eq_iff hafter').mp hrun.1.symm
    have hcount : count = count' := (Prod.mk.inj hrun.2).2.symm
    rw [hleaves, hleaves', Option.map_some, Option.map_some, hys, hcount]
  · rw [hnone xs rfl, hnone xs' hlength]

end Policy.Traced
