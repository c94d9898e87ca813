import AccessControl.GroupWalk
import Mathlib.Tactic.Common

/-! Before the bound that a row sets, the row counts exactly when it counted as the bound was set,
and sets the same bound. -/

namespace AccessControl

def Before (t : Instant) (bound : Option Instant) : Prop :=
  ∀ b, bound = some b → t < b

namespace Before

variable {t b : Instant} {x y : Option Instant}

@[simp]
lemma none : Before t none := by
  simp [Before]

@[simp]
lemma some : Before t (some b) ↔ t < b := by
  simp [Before]

@[simp]
lemma earliest : Before t (earliest x y) ↔ Before t x ∧ Before t y := by
  cases x with
  | none => simp [AccessControl.earliest]
  | some a =>
    cases y with
    | none => simp [AccessControl.earliest]
    | some b =>
      simp only [AccessControl.earliest, Instant.min, some]
      split
      · rename_i hab
        exact ⟨fun h => ⟨h, Instant.lt_of_lt_of_le h hab⟩, And.left⟩
      · rename_i hab
        exact ⟨fun h => ⟨Instant.lt_of_lt_of_le h (by
          rw [Instant.not_le] at hab
          exact Instant.not_lt.mp fun h' => by
            rw [Instant.lt_def] at hab h'; omega), h⟩, And.right⟩

lemma foldl_earliest {α : Type} {f : α → Option Instant} {rows : List α} :
    Before t (rows.foldl (fun bound a => AccessControl.earliest bound (f a)) x) ↔
      Before t x ∧ ∀ a ∈ rows, Before t (f a) := by
  induction rows generalizing x with
  | nil => simp
  | cons a rows ih => simp [ih, and_assoc]

end Before

namespace TimeWindow

variable {w : TimeWindow} {now t : Instant}

lemma nextTransition_of_starts {s : Instant} (hs : w.startsAt = some s) (h : now < s) :
    w.nextTransition now = some s := by
  simp [nextTransition, hs, Option.filter, h]

lemma nextTransition_of_started (h : ∀ s, w.startsAt = some s → s ≤ now) :
    w.nextTransition now = w.endsAt.filter fun e => now ≤ e := by
  have hn : w.startsAt.filter (fun s => decide (now < s)) = none := by
    rw [Option.filter_eq_none_iff]
    intro s hs
    simpa [Instant.not_lt] using h s hs
  simp [nextTransition, hn]

lemma steady (ht : now ≤ t) (hb : Before t (w.nextTransition now)) :
    w.contains t = w.contains now ∧ w.nextTransition t = w.nextTransition now := by
  by_cases h : ∃ s, w.startsAt = some s ∧ now < s
  · obtain ⟨s, hs, hlt⟩ := h
    rw [nextTransition_of_starts hs hlt, Before.some] at hb
    refine ⟨?_, by rw [nextTransition_of_starts hs hlt, nextTransition_of_starts hs hb]⟩
    have h₁ : ¬ s ≤ now := Instant.not_le.mpr hlt
    have h₂ : ¬ s ≤ t := Instant.not_le.mpr hb
    simp [contains, hs, h₁, h₂]
  · have hstarted : ∀ s, w.startsAt = some s → s ≤ now := fun s hs =>
      Instant.not_lt.mp fun hlt => h ⟨s, hs, hlt⟩
    have hstarted' : ∀ s, w.startsAt = some s → s ≤ t := fun s hs =>
      Instant.le_trans (hstarted s hs) ht
    rw [nextTransition_of_started hstarted] at hb ⊢
    rw [nextTransition_of_started hstarted']
    have hends : ∀ e, w.endsAt = some e → (t ≤ e ↔ now ≤ e) := by
      refine fun e he => ⟨Instant.le_trans ht, fun hle => ?_⟩
      have := hb e (by simp [he, hle])
      exact Instant.not_lt.mp fun h' => by rw [Instant.lt_def] at this h'; omega
    constructor
    · simp only [contains]
      congr 1
      · cases hs : w.startsAt with
        | none => rfl
        | some s => simp [hstarted s hs, hstarted' s hs]
      · cases he : w.endsAt with
        | none => rfl
        | some e => simp [hends e he]
    · cases he : w.endsAt with
      | none => rfl
      | some e => simp [Option.filter, hends e he]

end TimeWindow

def SteadyRow (isActive : Bool) (window : TimeWindow) (now t : Instant) : Prop :=
  (isActive && window.contains t) = (isActive && window.contains now) ∧
    GroupWalk.transition isActive window t = GroupWalk.transition isActive window now

lemma SteadyRow.refl (isActive : Bool) (window : TimeWindow) (now : Instant) :
    SteadyRow isActive window now now := ⟨rfl, rfl⟩

lemma SteadyRow.of_before {isActive : Bool} {window : TimeWindow} {now t : Instant} (ht : now ≤ t)
    (hb : Before t (GroupWalk.transition isActive window now)) :
    SteadyRow isActive window now t := by
  cases isActive with
  | false => simp [SteadyRow, GroupWalk.transition]
  | true =>
    simpa [SteadyRow, GroupWalk.transition] using
      TimeWindow.steady ht (by simpa [GroupWalk.transition] using hb)

end AccessControl
