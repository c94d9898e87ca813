/-!
Walks go step by step until no step is left. The number of steps is bounded from the data that is
walked over; `EndsWithin` says that a bound suffices.
-/

namespace AccessControl.Walk

def run (step : σ → Option σ) : Nat → σ → σ
  | 0, s => s
  | fuel + 1, s =>
    match step s with
    | none => s
    | some next => run step fuel next

inductive EndsWithin (step : σ → Option σ) : Nat → σ → Prop
  | done {n s} (h : step s = none) : EndsWithin step n s
  | next {n s s'} (h : step s = some s') (rest : EndsWithin step n s') : EndsWithin step (n + 1) s

theorem run_ends {step : σ → Option σ} {n : Nat} {s : σ} (h : EndsWithin step n s) :
    step (run step n s) = none := by
  induction h with
  | done h => rename_i n s; cases n <;> simp [run, h]
  | next h _ ih => simpa [run, h] using ih

end AccessControl.Walk
