import AccessControl.RoleGraph
import AccessControl.Proofs.Tables
import AccessControl.Proofs.Walks
import Mathlib.Data.List.Nodup
import Mathlib.Data.List.Perm.Subperm

/-! What lies above and below a role in a graph of roles. The depth of a role is the length of the
way up from it, where that ends, and the search for a cycle finds whatever is above the new parent,
also in a graph that has cycles. The height below a role is the length of some way up to it; of the
ways that are no longer than there are roles, which without a cycle is all of them, none is longer. -/

namespace AccessControl.RoleGraph

def above (g : RoleGraph) : Nat → String → Option String
  | 0, role => some role
  | n + 1, role => (g.above n role).bind g.parent?

variable {g : RoleGraph} {role child parent x y : String} {m n : Nat}

lemma above_add (g : RoleGraph) (m n : Nat) (x : String) :
    g.above (m + n) x = (g.above m x).bind (g.above n) := by
  induction n with
  | zero => cases h : g.above m x <;> simp [above]
  | succ n ih =>
    rw [← Nat.add_assoc, above, ih, Option.bind_assoc]
    rfl

lemma above_eq_none (h : g.above m x = none) (hn : m ≤ n) : g.above n x = none := by
  obtain ⟨k, rfl⟩ := Nat.exists_eq_add_of_le hn
  rw [above_add, h]
  rfl

lemma exists_above (h : g.above n x = some y) (hm : m ≤ n) :
    ∃ z, g.above m x = some z ∧ g.above (n - m) z = some y := by
  rw [← Nat.add_sub_cancel' hm, above_add] at h
  exact Option.bind_eq_some_iff.mp h

lemma contains_iff : g.contains x = true ↔ x ∈ g.roles.rows.map (·.id) := by
  rw [contains, Table.contains, Table.get?, List.find?_isSome]
  simp [Keyed.key]

lemma mem_children {c : Role} :
    c ∈ g.children role ↔ c ∈ g.roles.rows ∧ c.parent = some role := by
  simp [children]

lemma parent?_eq_some :
    g.parent? x = some y ↔ g.contains y = true ∧ ∃ c ∈ g.children y, c.id = x := by
  rw [parent?, Option.filter_eq_some_iff, Option.bind_eq_some_iff, and_comm]
  apply and_congr_right
  intro _
  simp only [Table.get?_eq_some, mem_children, Keyed.key]
  constructor
  · rintro ⟨c, ⟨hc, hid⟩, hp⟩
    exact ⟨c, ⟨hc, hp⟩, hid⟩
  · rintro ⟨c, ⟨hc, hp⟩, hid⟩
    exact ⟨c, ⟨hc, hid⟩, hp⟩

lemma contains_of_above (h : g.above (n + 1) x = some y) : g.contains y = true := by
  rw [above] at h
  obtain ⟨z, -, hz⟩ := Option.bind_eq_some_iff.mp h
  exact (parent?_eq_some.mp hz).1

def Acyclic (g : RoleGraph) : Prop :=
  ∀ n x, g.above (n + 1) x ≠ some x

lemma Acyclic.eq_of_above (h : g.Acyclic) (hm : g.above m x = some y)
    (hn : g.above n x = some y) : m = n := by
  wlog hle : m ≤ n
  · exact (this h hn hm (Nat.le_of_not_le hle)).symm
  obtain ⟨z, hz, hround⟩ := exists_above hn hle
  obtain rfl := Option.some.inj (hm.symm.trans hz)
  cases hk : n - m with
  | zero => omega
  | succ k =>
    rw [hk] at hround
    exact absurd hround (h k y)

lemma exists_above_le_size (h : g.above n x = some y) : ∃ m ≤ g.size, g.above m x = some y := by
  classical
  have hway : ∃ n, g.above n x = some y := ⟨n, h⟩
  refine ⟨Nat.find hway, ?_, Nat.find_spec hway⟩
  -- A shortest way meets no role twice, and all its roles but the first have to be in the graph.
  have hne : ∀ i j, i < j → j ≤ Nat.find hway → g.above i x ≠ g.above j x := by
    intro i j hij hj heq
    obtain ⟨z, hz, hrest⟩ := exists_above (Nat.find_spec hway) hj
    refine Nat.find_min hway (m := i + (Nat.find hway - j)) (by omega) ?_
    rw [above_add, heq, hz]
    exact hrest
  have hnodup : ((List.range (Nat.find hway)).map fun i => g.above (i + 1) x).Nodup := by
    refine List.Nodup.map_on (fun i hi j hj heq => ?_) List.nodup_range
    rw [List.mem_range] at hi hj
    rcases Nat.lt_trichotomy i j with hlt | rfl | hlt
    · exact absurd heq (hne _ _ (Nat.succ_lt_succ hlt) hj)
    · rfl
    · exact absurd heq.symm (hne _ _ (Nat.succ_lt_succ hlt) hi)
  have hstored : ((List.range (Nat.find hway)).map fun i => g.above (i + 1) x) ⊆
      g.roles.rows.map fun r => some r.id := by
    intro found hfound
    obtain ⟨i, hi, rfl⟩ := List.mem_map.mp hfound
    obtain ⟨z, hz, -⟩ :=
      exists_above (Nat.find_spec hway) (Nat.succ_le_of_lt (List.mem_range.mp hi))
    obtain ⟨r, hr, hid⟩ := List.mem_map.mp (contains_iff.mp (contains_of_above hz))
    exact List.mem_map.mpr ⟨r, hr, (congrArg some hid).trans hz.symm⟩
  simpa [size, Table.size] using (hnodup.subperm hstored).length_le

lemma Acyclic.le_size (h : g.Acyclic) (hx : g.above n x = some y) : n ≤ g.size := by
  obtain ⟨m, hm, hy⟩ := exists_above_le_size hx
  rwa [← h.eq_of_above hy hx]

lemma le_size_of_above_eq_none (hx : g.above n x = some y) (hnone : g.above (n + 1) x = none) :
    n ≤ g.size := by
  obtain ⟨m, hm, hy⟩ := exists_above_le_size hx
  by_contra hlt
  have hnone' : g.above (m + 1) x = none := by
    rw [above, hx] at hnone
    rw [above, hy]
    exact hnone
  rw [above_eq_none hnone' (by omega)] at hx
  cases hx

/-! Upwards. -/

def Climbed (g : RoleGraph) (role : String) (c : Climb) : Prop :=
  ∃ top, c.current = some top ∧ g.above c.depth role = some top

lemma climbStep_cases {c c' : Climb} (h : g.climbStep c = some c') :
    ∃ p, c.current.bind g.parent? = some p ∧ c.depth + 1 ≤ g.size ∧ c' = ⟨some p, c.depth + 1⟩ := by
  rw [climbStep] at h
  split at h
  · cases h
  · rename_i p hp
    split at h
    · cases h
    · rename_i hlong
      exact ⟨p, hp, Nat.le_of_not_lt hlong, (Option.some.inj h).symm⟩

lemma Climbed.step {c c' : Climb} (h : g.climbStep c = some c') (hc : g.Climbed role c) :
    g.Climbed role c' := by
  obtain ⟨p, hp, -, rfl⟩ := climbStep_cases h
  obtain ⟨top, htop, habove⟩ := hc
  refine ⟨p, rfl, ?_⟩
  rw [above, habove]
  rwa [htop] at hp

lemma climbed_run (g : RoleGraph) (role : String) :
    ∃ top n, Walk.run g.climbStep (g.size + 1) ⟨some role, 0⟩ = ⟨some top, n⟩ ∧
      g.above n role = some top ∧ (g.parent? top = none ∨ g.size < n + 1) := by
  have hshorter : ∀ {c c' : Climb}, g.climbStep c = some c' →
      g.size - c'.depth < g.size - c.depth := by
    intro c c' hstep
    obtain ⟨p, -, hle, rfl⟩ := climbStep_cases hstep
    simp only
    omega
  obtain ⟨⟨current, n⟩, hrun, hend, top, rfl, habove⟩ := Walk.exists_run_eq (P := g.Climbed role)
    (fun c => g.size - c.depth) hshorter Climbed.step (n := g.size + 1) (s := ⟨some role, 0⟩)
    (by simp) ⟨role, rfl, rfl⟩
  refine ⟨top, n, hrun, habove, ?_⟩
  rw [climbStep] at hend
  split at hend
  · rename_i hnone
    exact Or.inl hnone
  · split at hend
    · rename_i hlong
      exact Or.inr hlong
    · cases hend

lemma depthOf_eq_ok {d : Nat} : g.depthOf role = .ok d ↔
    g.contains role = true ∧ (∃ top, g.above d role = some top) ∧ g.above (d + 1) role = none := by
  obtain ⟨top, n, hrun, habove, hend⟩ := climbed_run g role
  rw [depthOf, hrun]
  by_cases hc : g.contains role = true
  · simp only [hc, if_true, true_and, Option.bind_some]
    cases hp : g.parent? top with
    | none =>
      have hnone : g.above (n + 1) role = none := by
        rw [above, habove]
        exact hp
      constructor
      · intro hd
        obtain rfl := Except.ok.inj hd
        exact ⟨⟨top, habove⟩, hnone⟩
      · rintro ⟨⟨top', htop'⟩, hnone'⟩
        rcases Nat.lt_trichotomy n d with hlt | rfl | hlt
        · rw [above_eq_none hnone hlt] at htop'
          cases htop'
        · rfl
        · rw [above_eq_none hnone' hlt] at habove
          cases habove
    | some p =>
      have hon : g.above (n + 1) role = some p := by
        rw [above, habove]
        exact hp
      constructor
      · intro hd
        cases hd
      · rintro ⟨⟨top', htop'⟩, hnone'⟩
        have hsize := le_size_of_above_eq_none htop' hnone'
        have hlong := hend.resolve_left (by simp [hp])
        rw [above_eq_none hnone' (by omega)] at hon
        cases hon
  · simp [hc]

lemma le_of_depthOf {d : Nat} (h : g.depthOf role = .ok d) (hn : g.above n role = some y) :
    n ≤ d := by
  obtain ⟨-, -, hnone⟩ := depthOf_eq_ok.mp h
  by_contra hlt
  rw [above_eq_none hnone (Nat.lt_of_not_le hlt)] at hn
  cases hn

lemma Acyclic.exists_depthOf (h : g.Acyclic) (hc : g.contains role = true) :
    ∃ d, g.depthOf role = .ok d := by
  classical
  have hends : ∃ n, g.above (n + 1) role = none := by
    refine ⟨g.size, ?_⟩
    cases hy : g.above (g.size + 1) role with
    | none => rfl
    | some y => exact absurd (h.le_size hy) (by omega)
  refine ⟨Nat.find hends, depthOf_eq_ok.mpr ⟨hc, ?_, Nat.find_spec hends⟩⟩
  rw [← Option.isSome_iff_exists, ← Option.ne_none_iff_isSome]
  cases hn : Nat.find hends with
  | zero => simp [above]
  | succ n => exact Nat.find_min hends (by omega)

lemma ascentStep_cases {a a' : Ascent} (h : g.ascentStep child a = some a') :
    ∃ role, a.current = some role ∧
      (role = child ∧ a' = { a with current := none, met := true } ∨
        role ≠ child ∧ g.size < a.steps + 1 ∧ a' = { a with current := none } ∨
        role ≠ child ∧ a.steps + 1 ≤ g.size ∧ a' = ⟨g.parent? role, a.steps + 1, false⟩) := by
  rw [ascentStep] at h
  split at h
  · cases h
  · rename_i role hrole
    refine ⟨role, hrole, ?_⟩
    split at h
    · rename_i hchild
      exact Or.inl ⟨hchild, (Option.some.inj h).symm⟩
    · rename_i hne
      split at h
      · rename_i hlong
        exact Or.inr (Or.inl ⟨hne, hlong, (Option.some.inj h).symm⟩)
      · rename_i hlong
        exact Or.inr (Or.inr ⟨hne, Nat.le_of_not_lt hlong, (Option.some.inj h).symm⟩)

inductive Searched (g : RoleGraph) (child parent : String) (a : Ascent) : Prop
  | found : a.met = true → a.current = none → (∃ n, g.above n parent = some child) →
      Searched g child parent a
  | passed : a.met = false → a.current = g.above a.steps parent →
      (∀ n < a.steps, g.above n parent ≠ some child) → Searched g child parent a
  | left : a.met = false → a.current = none → (∀ n ≤ g.size, g.above n parent ≠ some child) →
      Searched g child parent a

lemma Searched.step {a a' : Ascent} (h : g.ascentStep child a = some a')
    (ha : g.Searched child parent a) : g.Searched child parent a' := by
  obtain ⟨role, hrole, hcases⟩ := ascentStep_cases h
  cases ha with
  | found _ hnone _ => cases hrole.symm.trans hnone
  | left _ hnone _ => cases hrole.symm.trans hnone
  | passed hmet hstands hpassed =>
    have hrole : g.above a.steps parent = some role := hstands.symm.trans hrole
    have hpassed : role ≠ child → ∀ n < a.steps + 1, g.above n parent ≠ some child := by
      intro hne n hn
      rcases Nat.lt_succ_iff_lt_or_eq.mp hn with hn | rfl
      · exact hpassed n hn
      · rw [hrole]
        exact fun he => hne (Option.some.inj he)
    rcases hcases with ⟨rfl, rfl⟩ | ⟨hne, hlong, rfl⟩ | ⟨hne, -, rfl⟩
    · exact .found rfl rfl ⟨a.steps, hrole⟩
    · exact .left hmet rfl fun n hn => hpassed hne n (Nat.lt_of_le_of_lt hn hlong)
    · refine .passed rfl ?_ (hpassed hne)
      rw [above, hrole]
      rfl

def ahead (g : RoleGraph) (a : Ascent) : Nat :=
  match a.current with
  | none => 0
  | some _ => g.size + 1 - a.steps + 1

lemma ahead_lt {a a' : Ascent} (h : g.ascentStep child a = some a') : g.ahead a' < g.ahead a := by
  obtain ⟨role, hrole, hcases⟩ := ascentStep_cases h
  have hahead : g.ahead a = g.size + 1 - a.steps + 1 := by simp [ahead, hrole]
  rw [hahead]
  rcases hcases with ⟨-, rfl⟩ | ⟨-, -, rfl⟩ | ⟨-, hle, rfl⟩
  · exact Nat.succ_pos _
  · exact Nat.succ_pos _
  · cases hp : g.parent? role with
    | none => exact Nat.succ_pos _
    | some p =>
      simp only [ahead]
      omega

lemma current_of_ascentStep {a : Ascent} (h : g.ascentStep child a = none) : a.current = none := by
  cases hc : a.current with
  | none => rfl
  | some role =>
    simp only [ascentStep, hc] at h
    repeat' split at h
    all_goals cases h

lemma wouldCreateCycle_iff :
    g.wouldCreateCycle child parent = true ↔ ∃ n, g.above n parent = some child := by
  obtain ⟨a, hrun, hend, hsearched⟩ := Walk.exists_run_eq (P := g.Searched child parent) g.ahead
    ahead_lt Searched.step (n := g.size + 2) (s := ⟨some parent, 0, false⟩) (by simp [ahead])
    (.passed rfl rfl (by simp))
  rw [wouldCreateCycle, hrun]
  cases hsearched with
  | found hmet _ habove => exact ⟨fun _ => habove, fun _ => hmet⟩
  | passed hmet hstands hpassed =>
    refine ⟨fun hm => absurd (hmet.symm.trans hm) Bool.false_ne_true, ?_⟩
    rintro ⟨n, hn⟩
    rcases Nat.lt_or_ge n a.steps with hlt | hge
    · exact absurd hn (hpassed n hlt)
    · rw [above_eq_none (hstands.symm.trans (current_of_ascentStep hend)) hge] at hn
      cases hn
  | left hmet _ hnowhere =>
    refine ⟨fun hm => absurd (hmet.symm.trans hm) Bool.false_ne_true, ?_⟩
    rintro ⟨n, hn⟩
    obtain ⟨m, hm, hchild⟩ := exists_above_le_size hn
    exact absurd hchild (hnowhere m hm)

/-! Downwards. -/

def below (g : RoleGraph) : Nat → String → List String
  | 0, role => [role]
  | n + 1, role =>
    if g.contains role then (g.children role).flatMap fun c => g.below n c.id else []

lemma mem_below : x ∈ g.below n role ↔ g.above n x = some role := by
  induction n generalizing role with
  | zero => simp [below, above]
  | succ n ih =>
    rw [above, Option.bind_eq_some_iff, below]
    simp only [parent?_eq_some]
    split
    · rename_i hc
      simp only [List.mem_flatMap, ih, hc, true_and]
      constructor
      · rintro ⟨c, hc, hx⟩
        exact ⟨c.id, hx, c, hc, rfl⟩
      · rintro ⟨z, hx, c, hc, rfl⟩
        exact ⟨c, hc, hx⟩
    · rename_i hc
      simp [hc]

lemma nodup_below (g : RoleGraph) (n : Nat) (role : String) : (g.below n role).Nodup := by
  induction n generalizing role with
  | zero => exact List.nodup_singleton role
  | succ n ih =>
    rw [below]
    split
    · refine List.nodup_flatMap.mpr ⟨fun c _ => ih c.id, ?_⟩
      refine (g.roles.increasing.filter _).imp fun {c c'} hlt => ?_
      intro x hx hx'
      have heq : Keyed.key c = Keyed.key c' :=
        Option.some.inj ((mem_below.mp hx).symm.trans (mem_below.mp hx'))
      exact String.lt_irrefl _ (heq ▸ hlt)
    · exact List.nodup_nil

lemma length_below_le (g : RoleGraph) (n : Nat) (role : String) :
    (g.below (n + 1) role).length ≤ g.size := by
  have hstored : g.below (n + 1) role ⊆ g.roles.rows.map (·.id) := by
    intro x hx
    obtain ⟨z, hz, -⟩ := exists_above (mem_below.mp hx) (Nat.succ_le_succ (Nat.zero_le n))
    obtain ⟨-, c, hc, rfl⟩ := parent?_eq_some.mp (show g.parent? x = some z from hz)
    exact List.mem_map.mpr ⟨c, (mem_children.mp hc).1, rfl⟩
  simpa [size, Table.size] using ((nodup_below g (n + 1) role).subperm hstored).length_le

def visits (g : RoleGraph) : Nat → String → List String
  | 0, _ => []
  | levels + 1, role =>
    role :: if g.contains role then (g.children role).flatMap fun c => g.visits levels c.id else []

lemma length_visits_succ (g : RoleGraph) (levels : Nat) (role : String) :
    (g.visits (levels + 1) role).length =
      (g.visits levels role).length + (g.below levels role).length := by
  induction levels generalizing role with
  | zero => simp [visits, below]
  | succ levels ih =>
    have hchildren : ∀ cs : List Role, (cs.flatMap fun c => g.visits (levels + 1) c.id).length =
        (cs.flatMap fun c => g.visits levels c.id).length +
          (cs.flatMap fun c => g.below levels c.id).length := by
      intro cs
      induction cs with
      | nil => rfl
      | cons c cs ihs =>
        simp only [List.flatMap_cons, List.length_append, ih, ihs]
        omega
    rw [visits, below, visits]
    split
    · rw [List.length_cons, List.length_cons, hchildren]
      omega
    · rfl

lemma length_visits_le (g : RoleGraph) (levels : Nat) (role : String) :
    (g.visits (levels + 1) role).length ≤ 1 + levels * g.size := by
  induction levels with
  | zero => simp [visits]
  | succ levels ih =>
    rw [length_visits_succ, Nat.succ_mul]
    have := length_below_le g levels role
    omega

lemma descentStep_cases {d d' : Descent} (h : g.descentStep d = some d') :
    ∃ top level rest, d.pending = (top, level) :: rest ∧ level ≤ g.size ∧
      d' = ⟨(if g.contains top then (g.children top).reverse.map fun c => (c.id, level + 1)
        else []) ++ rest, max d.height level⟩ := by
  rw [descentStep] at h
  split at h
  · cases h
  · rename_i top level rest hpending
    split at h
    · cases h
    · rename_i hlevel
      exact ⟨top, level, rest, hpending, Nat.le_of_not_lt hlevel, (Option.some.inj h).symm⟩

lemma mem_pending {top : String} {level : Nat} {p : String × Nat} :
    p ∈ (if g.contains top then (g.children top).reverse.map fun c => (c.id, level + 1) else []) ↔
      g.parent? p.1 = some top ∧ p.2 = level + 1 := by
  obtain ⟨x, n⟩ := p
  rw [parent?_eq_some]
  split
  · rename_i hc
    simp only [List.mem_map, List.mem_reverse, Prod.mk.injEq, hc, true_and]
    constructor
    · rintro ⟨c, hc, hid, rfl⟩
      exact ⟨⟨c, hc, hid⟩, rfl⟩
    · rintro ⟨⟨c, hc, hid⟩, rfl⟩
      exact ⟨c, hc, hid, rfl⟩
  · rename_i hc
    simp [hc]

def outstanding (g : RoleGraph) (d : Descent) : Nat :=
  (d.pending.flatMap fun p => g.visits (g.size + 1 - p.2) p.1).length

lemma outstanding_lt {d d' : Descent} (h : g.descentStep d = some d') :
    g.outstanding d' < g.outstanding d := by
  obtain ⟨top, level, rest, hpending, hlevel, rfl⟩ := descentStep_cases h
  have hlevels : g.size + 1 - level = g.size - level + 1 := by omega
  have hbelow : g.size + 1 - (level + 1) = g.size - level := by omega
  have hreverse := ((List.reverse_perm (g.children top)).flatMap_right
    fun c => g.visits (g.size - level) c.id).length_eq
  simp only [outstanding, hpending, List.flatMap_append, List.flatMap_cons, hlevels, visits,
    List.length_append, List.length_cons]
  split
  · rw [List.flatMap_map]
    simp only [hbelow, hreverse]
    omega
  · simp

structure Sounded (g : RoleGraph) (role : String) (d : Descent) : Prop where
  levels : ∀ p ∈ d.pending, p.2 ≤ d.height + 1
  reached : ∀ n x, g.above n x = some role →
    n ≤ d.height ∨ ∃ p ∈ d.pending, ∃ m, n = m + p.2 ∧ g.above m x = some p.1

lemma Sounded.step {d d' : Descent} (h : g.descentStep d = some d') (hd : g.Sounded role d) :
    g.Sounded role d' := by
  obtain ⟨top, level, rest, hpending, -, rfl⟩ := descentStep_cases h
  obtain ⟨hlevels, hreached⟩ := hd
  simp only [hpending, List.forall_mem_cons] at hlevels
  simp only [hpending, List.mem_cons, exists_eq_or_imp] at hreached
  constructor
  · intro p hp
    rcases List.mem_append.mp hp with hp | hp
    · rw [(mem_pending.mp hp).2]
      exact Nat.succ_le_succ (Nat.le_max_right _ _)
    · exact Nat.le_trans (hlevels.2 p hp) (Nat.succ_le_succ (Nat.le_max_left _ _))
  · intro n x hx
    rcases hreached n x hx with hn | ⟨m, rfl, hm⟩ | ⟨p, hp, hm⟩
    · exact Or.inl (Nat.le_trans hn (Nat.le_max_left _ _))
    · cases m with
      | zero =>
        rw [Nat.zero_add]
        exact Or.inl (Nat.le_max_right _ _)
      | succ m =>
        obtain ⟨z, hz, hparent⟩ := Option.bind_eq_some_iff.mp hm
        refine Or.inr ⟨(z, level + 1), ?_, m, ?_, hz⟩
        · exact List.mem_append_left _ (mem_pending.mpr ⟨hparent, rfl⟩)
        · simp only
          omega
    · exact Or.inr ⟨p, List.mem_append_right _ hp, hm⟩

lemma le_heightBelow (h : g.above n x = some role) (hn : n ≤ g.size) : n ≤ g.heightBelow role := by
  have hvisits : g.outstanding ⟨[(role, 0)], 0⟩ ≤ g.size * (g.size + 1) + 1 := by
    have hvisits := length_visits_le g g.size role
    simp only [outstanding, List.flatMap_cons, List.flatMap_nil, List.append_nil, Nat.sub_zero]
    rw [Nat.mul_succ]
    omega
  have hstart : g.Sounded role ⟨[(role, 0)], 0⟩ :=
    ⟨by simp, fun n x hx => Or.inr ⟨(role, 0), List.mem_cons_self, n, rfl, hx⟩⟩
  obtain ⟨d, hrun, hend, hlevels, hreached⟩ :=
    Walk.exists_run_eq g.outstanding outstanding_lt Sounded.step hvisits hstart
  rw [heightBelow, hrun]
  rcases hreached n x h with hle | ⟨p, hp, -⟩
  · exact hle
  · rw [descentStep] at hend
    split at hend
    · rename_i hnone
      simp [hnone] at hp
    · rename_i top level rest hpending
      split at hend
      · rename_i hlong
        have := hlevels (top, level) (by simp [hpending])
        simp only at this
        omega
      · cases hend

structure Measured (g : RoleGraph) (role : String) (d : Descent) : Prop where
  levels : ∀ p ∈ d.pending, g.above p.2 p.1 = some role
  attained : ∃ x, g.above d.height x = some role

lemma Measured.step {d d' : Descent} (h : g.descentStep d = some d') (hd : g.Measured role d) :
    g.Measured role d' := by
  obtain ⟨top, level, rest, hpending, -, rfl⟩ := descentStep_cases h
  obtain ⟨hlevels, x, hx⟩ := hd
  simp only [hpending, List.forall_mem_cons] at hlevels
  constructor
  · intro p hp
    rcases List.mem_append.mp hp with hp | hp
    · obtain ⟨hparent, hlevel⟩ := mem_pending.mp hp
      rw [hlevel, Nat.add_comm, above_add, show g.above 1 p.1 = some top from hparent]
      exact hlevels.1
    · exact hlevels.2 p hp
  · rcases Nat.le_total d.height level with hle | hle
    · refine ⟨top, ?_⟩
      rw [Nat.max_eq_right hle]
      exact hlevels.1
    · refine ⟨x, ?_⟩
      rw [Nat.max_eq_left hle]
      exact hx

lemma exists_above_heightBelow (g : RoleGraph) (role : String) :
    ∃ x, g.above (g.heightBelow role) x = some role :=
  (Walk.run_preserves (P := g.Measured role) Measured.step (g.size * (g.size + 1) + 1)
    (s := ⟨[(role, 0)], 0⟩) ⟨by simp [above], role, rfl⟩).attained

end AccessControl.RoleGraph
