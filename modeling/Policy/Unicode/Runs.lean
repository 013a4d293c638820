namespace Policy.Unicode

/-- A value for each character number, given by the runs of numbers that share one. A run reaches to
the start of the next. -/
structure Runs (α : Type) where
  starts : Array (Nat × α)

namespace Runs

variable {α : Type}

/-- The last run between `low` and `high` that does not start behind `n`. -/
def search (starts : Array (Nat × α)) (n : Nat) : (room low high : Nat) → Nat
  | 0, low, _ => low
  | room + 1, low, high =>
    if high ≤ low + 1 then low
    else
      let middle := (low + high) / 2
      match starts[middle]? with
      | some (start, _) =>
        if start ≤ n then search starts n room middle high else search starts n room low middle
      | none => low

def at? (runs : Runs α) (n : Nat) : Option α :=
  (runs.starts[search runs.starts n 32 0 runs.starts.size]?).map (·.2)

/-- A run is written as a code of letters and the number of characters that it covers. -/
def addRun (ofCode? : String → Option α) (seen : Array (Nat × α) × Nat) (run : String) :
    Array (Nat × α) × Nat :=
  let code := String.ofList (run.toList.takeWhile Char.isAlpha)
  let length := Nat.ofDigitChars 10 (run.toList.dropWhile Char.isAlpha) 0
  match ofCode? code with
  | some x => (seen.1.push (seen.2, x), seen.2 + length)
  | none => (seen.1, seen.2 + length)

def ofText (ofCode? : String → Option α) (lines : List String) : Runs α :=
  ⟨(lines.foldl (fun seen line => (line.splitOn " ").foldl (addRun ofCode?) seen) (#[], 0)).1⟩

end Runs

/-- Numbers from a first to a last one. -/
abbrev Range := Nat × Nat

def inRanges (ranges : List Range) (n : Nat) : Bool :=
  ranges.any fun (low, high) => low ≤ n && n ≤ high

/-- Ranges written as the gap in front of each and the number of characters in it. -/
def rangesOfText (lines : List String) : List Range :=
  let step := fun (seen : List Range × Nat) (range : String) =>
    let gap := Nat.ofDigitChars 10 (range.toList.takeWhile Char.isDigit) 0
    let length := Nat.ofDigitChars 10 ((range.toList.dropWhile Char.isDigit).drop 1) 0
    ((seen.2 + gap, seen.2 + gap + length - 1) :: seen.1, seen.2 + gap + length)
  (lines.foldl (fun seen line => (line.splitOn " ").foldl step seen) ([], 0)).1.reverse

end Policy.Unicode
