import AccessControl.Calendar
import AccessControl.Duration

/-!
Instants of universal time: seconds since the beginning of 1970 and nanoseconds. A leap second is
told by nanoseconds beyond one second, counted on the second before it.
-/

namespace AccessControl

structure Instant where
  seconds : Int
  nanos : Nat
deriving DecidableEq, Repr, Inhabited

namespace Instant

protected def le (a b : Instant) : Prop :=
  a.seconds < b.seconds ∨ (a.seconds = b.seconds ∧ a.nanos ≤ b.nanos)

protected def lt (a b : Instant) : Prop :=
  a.seconds < b.seconds ∨ (a.seconds = b.seconds ∧ a.nanos < b.nanos)

instance : LE Instant := ⟨Instant.le⟩
instance : LT Instant := ⟨Instant.lt⟩

instance (a b : Instant) : Decidable (a ≤ b) := inferInstanceAs (Decidable (_ ∨ _))
instance (a b : Instant) : Decidable (a < b) := inferInstanceAs (Decidable (_ ∨ _))

theorem le_def {a b : Instant} :
    a ≤ b ↔ a.seconds < b.seconds ∨ (a.seconds = b.seconds ∧ a.nanos ≤ b.nanos) := Iff.rfl

theorem lt_def {a b : Instant} :
    a < b ↔ a.seconds < b.seconds ∨ (a.seconds = b.seconds ∧ a.nanos < b.nanos) := Iff.rfl

theorem not_lt {a b : Instant} : ¬ a < b ↔ b ≤ a := by
  rw [lt_def, le_def]; omega

theorem not_le {a b : Instant} : ¬ a ≤ b ↔ b < a := by
  rw [lt_def, le_def]; omega

theorem le_refl (a : Instant) : a ≤ a := by
  rw [le_def]; omega

theorem le_trans {a b c : Instant} (h : a ≤ b) (h' : b ≤ c) : a ≤ c := by
  rw [le_def] at *; omega

theorem lt_of_lt_of_le {a b c : Instant} (h : a < b) (h' : b ≤ c) : a < c := by
  rw [lt_def, le_def] at *; omega

theorem lt_of_le_of_lt {a b c : Instant} (h : a ≤ b) (h' : b < c) : a < c := by
  rw [lt_def, le_def] at *; omega

theorem le_antisymm {a b : Instant} (h : a ≤ b) (h' : b ≤ a) : a = b := by
  cases a; cases b; simp only [le_def, mk.injEq] at *; omega

theorem le_total (a b : Instant) : a ≤ b ∨ b ≤ a := by
  rw [le_def, le_def]; omega

protected def min (a b : Instant) : Instant := if a ≤ b then a else b

def day (t : Instant) : Int := t.seconds / 86400
def secondOfDay (t : Instant) : Int := t.seconds % 86400

def InRange (t : Instant) : Prop :=
  Calendar.firstDay ≤ t.day ∧ t.day ≤ Calendar.lastDay

instance (t : Instant) : Decidable t.InRange := by unfold InRange; infer_instance

def ofSeconds? (n : Int) : Option Instant :=
  let t : Instant := ⟨n, 0⟩
  if t.InRange then some t else none

/-- Nanoseconds from one instant to another. A leap second counts when the later time of day lies
past it. -/
def since (t s : Instant) : Int :=
  let leap : Int :=
    if s.secondOfDay < t.secondOfDay ∧ Duration.perSecond ≤ s.nanos then 1
    else if t.secondOfDay < s.secondOfDay ∧ Duration.perSecond ≤ t.nanos then -1
    else 0
  (t.seconds - s.seconds + leap) * Duration.perSecond + (t.nanos - s.nanos : Int)

end Instant

def earliest : Option Instant → Option Instant → Option Instant
  | some a, some b => some (a.min b)
  | some a, none => some a
  | none, b => b

end AccessControl
