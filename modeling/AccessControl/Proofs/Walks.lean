import AccessControl.Walk
import Mathlib.Tactic.Common

/-! What every step of a walk keeps, the walk keeps; a measure that every step lowers bounds it. -/

namespace AccessControl.Walk

variable {σ : Type} {step : σ → Option σ}

lemma run_preserves {P : σ → Prop} (h : ∀ {s s'}, step s = some s' → P s → P s') (n : Nat)
    {s : σ} (hs : P s) : P (run step n s) := by
  induction n generalizing s with
  | zero => exact hs
  | succ n ih =>
    rw [run]
    cases hn : step s with
    | none => exact hs
    | some s' => exact ih (h hn hs)

lemma endsWithin_of_measure (μ : σ → Nat) (h : ∀ {s s'}, step s = some s' → μ s' < μ s)
    {n : Nat} {s : σ} (hn : μ s ≤ n) : EndsWithin step n s := by
  induction n generalizing s with
  | zero =>
    refine .done ?_
    cases hs : step s with
    | none => rfl
    | some s' =>
      have := h hs
      omega
  | succ n ih =>
    cases hs : step s with
    | none => exact .done hs
    | some s' =>
      have := h hs
      exact .next hs (ih (by omega))

lemma exists_run_eq {P : σ → Prop} (μ : σ → Nat) (hμ : ∀ {s s'}, step s = some s' → μ s' < μ s)
    (hP : ∀ {s s'}, step s = some s' → P s → P s') {n : Nat} {s : σ} (hn : μ s ≤ n) (hs : P s) :
    ∃ t, run step n s = t ∧ step t = none ∧ P t :=
  ⟨_, rfl, run_ends (endsWithin_of_measure μ hμ hn), run_preserves hP n hs⟩

lemma run_of_done {s : σ} (h : step s = none) (n : Nat) : run step n s = s := by
  cases n <;> simp [run, h]

lemma run_succ_of_done {n : Nat} {s : σ} (h : step (run step n s) = none) :
    run step (n + 1) s = run step n s := by
  induction n generalizing s with
  | zero => simpa [run] using run_of_done h 1
  | succ n ih =>
    rw [run]
    cases hs : step s with
    | none => rw [run_of_done hs]
    | some s' =>
      simp only [run, hs] at h ⊢
      exact ih h

lemma countP_unseen {α : Type} (key : α → String) (rows : List α) {seen seen' : List String}
    {v : String} (hs : ∀ x, x ∈ seen' ↔ x = v ∨ x ∈ seen) (hv : v ∉ seen) :
    rows.countP (fun r => !seen'.contains (key r)) + rows.countP (fun r => key r == v) =
      rows.countP fun r => !seen.contains (key r) := by
  induction rows with
  | nil => rfl
  | cons r rows ih =>
    simp only [List.countP_cons]
    by_cases hr : key r = v
    · simp [hr, hs, hv] at ih ⊢
      omega
    · simp [hr, hs] at ih ⊢
      omega

lemma run_reflects {P : σ → Prop} (h : ∀ {s s'}, step s = some s' → P s' → P s) (n : Nat) {s : σ}
    (hs : P (run step n s)) : P s := by
  induction n generalizing s with
  | zero => exact hs
  | succ n ih =>
    rw [run] at hs
    cases hn : step s with
    | none => simpa [hn] using hs
    | some s' => exact h hn (ih (by simpa [hn] using hs))

lemma run_related {τ : Type} {step' : τ → Option τ} {R : σ → τ → Prop}
    (hdone : ∀ {s t}, R s t → step s = none → step' t = none)
    (hnext : ∀ {s t s'}, R s t → step s = some s' → ∃ t', step' t = some t' ∧ R s' t') (n : Nat)
    {s : σ} {t : τ} (h : R s t) : R (run step n s) (run step' n t) := by
  induction n generalizing s t with
  | zero => exact h
  | succ n ih =>
    rw [run, run]
    cases hs : step s with
    | none =>
      rw [hdone h hs]
      exact h
    | some s' =>
      obtain ⟨t', ht, h'⟩ := hnext h hs
      rw [ht]
      exact ih h'

lemma run_congr {step' : σ → Option σ} {P : σ → Prop}
    (hback : ∀ {s s'}, step s = some s' → P s' → P s)
    (hdone : ∀ {s}, step s = none → step' s = none)
    (hstep : ∀ {s s'}, step s = some s' → P s' → step' s = some s') (n : Nat) {s : σ}
    (hg : P (run step n s)) : run step' n s = run step n s := by
  induction n generalizing s with
  | zero => rfl
  | succ n ih =>
    cases hs : step s with
    | none => rw [run_of_done hs, run_of_done (hdone hs)]
    | some s' =>
      simp only [run, hs] at hg ⊢
      rw [hstep hs (run_reflects hback n hg)]
      exact ih hg

lemma foldl_congr {α β : Type} {f f' : β → α → β} {P : β → Prop} {l : List α}
    (hback : ∀ {b a}, a ∈ l → P (f b a) → P b)
    (hf : ∀ {b a}, a ∈ l → P (f b a) → f' b a = f b a) {b : β}
    (hg : P (l.foldl f b)) : P b ∧ l.foldl f' b = l.foldl f b := by
  induction l generalizing b with
  | nil => exact ⟨hg, rfl⟩
  | cons a l ih =>
    obtain ⟨hgood, he⟩ := ih (fun ha => hback (List.mem_cons_of_mem _ ha))
      (fun ha => hf (List.mem_cons_of_mem _ ha)) hg
    refine ⟨hback List.mem_cons_self hgood, ?_⟩
    rw [List.foldl_cons, List.foldl_cons, hf List.mem_cons_self hgood, he]

inductive Takes (step : σ → Option σ) : Nat → σ → σ → Prop
  | here (s : σ) : Takes step 0 s s
  | next {n : Nat} {s s' t : σ} : step s = some s' → Takes step n s' t → Takes step (n + 1) s t

lemma exists_takes (μ : σ → Nat) (hμ : ∀ {s s'}, step s = some s' → μ s' < μ s) {n : Nat} {s : σ}
    (hn : μ s ≤ n) : ∃ k ≤ n, ∃ t, Takes step k s t ∧ step t = none := by
  have hends := endsWithin_of_measure μ hμ hn
  clear hn
  induction hends with
  | done hs => exact ⟨0, Nat.zero_le _, _, .here _, hs⟩
  | next hs _ ih =>
    obtain ⟨k, hk, t, htakes, hend⟩ := ih
    exact ⟨k + 1, Nat.succ_le_succ hk, t, .next hs htakes, hend⟩

lemma Takes.run_eq {k n : Nat} {s t : σ} (h : Takes step k s t) (hend : step t = none)
    (hk : k ≤ n) : run step n s = t := by
  induction h generalizing n with
  | here s => exact run_of_done hend n
  | @next k s s' t hs _ ih =>
    obtain ⟨m, rfl⟩ := Nat.exists_eq_add_of_le' (Nat.le_trans (Nat.le_add_left 1 k) hk)
    rw [run, hs]
    exact ih hend (Nat.le_of_succ_le_succ hk)

lemma Takes.measure_add_le (μ : σ → Nat) (hμ : ∀ {s s'}, step s = some s' → μ s' < μ s) {k : Nat}
    {s t : σ} (h : Takes step k s t) : k + μ t ≤ μ s := by
  induction h with
  | here s => exact Nat.le_of_eq (Nat.zero_add _)
  | next hs _ ih =>
    have := hμ hs
    omega

def Ends (step : σ → Option σ) (n : Nat) (s t : σ) : Prop :=
  ∃ k ≤ n, Takes step k s t ∧ step t = none

lemma exists_takes_run (μ : σ → Nat) (hμ : ∀ {s s'}, step s = some s' → μ s' < μ s) {n : Nat}
    {s : σ} (hn : μ s ≤ n) : ∃ k, k + μ (run step n s) ≤ μ s ∧ Takes step k s (run step n s) ∧
      step (run step n s) = none := by
  obtain ⟨k, hk, t, htakes, hend⟩ := exists_takes μ hμ hn
  rw [htakes.run_eq hend hk]
  exact ⟨k, htakes.measure_add_le μ hμ, htakes, hend⟩

lemma ends_run (μ : σ → Nat) (hμ : ∀ {s s'}, step s = some s' → μ s' < μ s) {n : Nat} {s : σ}
    (hn : μ s ≤ n) : Ends step n s (run step n s) := by
  obtain ⟨k, hk, htakes, hend⟩ := exists_takes_run μ hμ hn
  exact ⟨k, Nat.le_trans (Nat.le_of_add_right_le hk) hn, htakes, hend⟩

end AccessControl.Walk
