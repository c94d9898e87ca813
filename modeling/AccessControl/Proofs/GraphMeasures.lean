import AccessControl.Proofs.RoleGraphs
import Mathlib.Order.Bounds.Basic

/-! How far it is up from a role and down from it, also where parents go round. The depth is told
exactly where the way up ends, and a cycle where it does not. The descent looks at no more roles than
the square of their number, and without a cycle below the role its height is the longest way down. -/

namespace AccessControl.RoleGraph

def live? (roles : List Role) (id : String) : Option Role :=
  (roles.filter (·.isLive)).reverse.find? (·.id == id)

def Under (roles : List Role) (child parent : String) : Prop :=
  ∃ c, live? roles child = some c ∧ c.parent = some parent ∧ (live? roles parent).isSome = true

inductive Hops (roles : List Role) : Nat → String → String → Prop
  | here (id : String) : Hops roles 0 id id
  | up {n : Nat} {a b c : String} : Hops roles n a b → Under roles b c → Hops roles (n + 1) a c

def OnCycle (roles : List Role) (id : String) : Prop :=
  ∃ n, Hops roles (n + 1) id id

variable {g : RoleGraph} {roles : List Role} {role a b x y : String} {m n d : Nat}

lemma get?_ofRoles (roles : List Role) (id : String) :
    (ofRoles roles).roles.get? id = live? roles id :=
  Table.get?_ofList _ id

lemma contains_ofRoles (roles : List Role) (id : String) :
    (ofRoles roles).contains id = (live? roles id).isSome :=
  congrArg Option.isSome (get?_ofRoles roles id)

lemma parent?_ofRoles_iff : (ofRoles roles).parent? a = some b ↔ Under roles a b := by
  rw [parent?, get?_ofRoles, Option.filter_eq_some_iff, Option.bind_eq_some_iff, contains_ofRoles]
  constructor
  · rintro ⟨⟨c, hc, hp⟩, hb⟩
    exact ⟨c, hc, hp, hb⟩
  · rintro ⟨c, hc, hp, hb⟩
    exact ⟨⟨c, hc, hp⟩, hb⟩

lemma above_ofRoles_iff : (ofRoles roles).above n a = some b ↔ Hops roles n a b := by
  constructor
  · intro h
    induction n generalizing b with
    | zero =>
      obtain rfl := Option.some.inj h
      exact .here a
    | succ n ih =>
      obtain ⟨c, hc, hb⟩ := Option.bind_eq_some_iff.mp h
      exact .up (ih hc) (parent?_ofRoles_iff.mp hb)
  · intro h
    induction h with
    | here => rfl
    | up _ hb ih =>
      rw [above, ih]
      exact parent?_ofRoles_iff.mpr hb

lemma size_ofRoles_le (roles : List Role) : (ofRoles roles).size ≤ roles.countP (·.isLive) := by
  have hgiven : (ofRoles roles).roles.rows ⊆ roles.filter (·.isLive) := fun _ hr =>
    Table.mem_of_mem_ofList hr
  rw [List.countP_eq_length_filter]
  exact ((ofRoles roles).roles.nodup_keys.of_map.subperm hgiven).length_le

lemma above_succ_eq_none (h : g.above n x = some y) :
    g.above (n + 1) x = none ↔ g.parent? y = none := by
  rw [above, h]
  rfl

lemma depthOf_eq_ok_iff : g.depthOf role = .ok d ↔
    g.contains role = true ∧ ∃ top, g.above d role = some top ∧ g.parent? top = none := by
  rw [depthOf_eq_ok]
  apply and_congr_right
  intro _
  constructor
  · rintro ⟨⟨top, htop⟩, hnone⟩
    exact ⟨top, htop, (above_succ_eq_none htop).mp hnone⟩
  · rintro ⟨top, htop, hnone⟩
    exact ⟨⟨top, htop⟩, (above_succ_eq_none htop).mpr hnone⟩

lemma above_round (h : g.above m x = some y) (hround : g.above (n + 1) y = some y) (k : Nat) :
    g.above (m + k * (n + 1)) x = some y := by
  induction k with
  | zero => rwa [Nat.zero_mul]
  | succ k ih =>
    rw [Nat.succ_mul, ← Nat.add_assoc, above_add, ih]
    exact hround

lemma above_ne_none_of_round (h : g.above m x = some y) (hround : g.above (n + 1) y = some y)
    (k : Nat) : g.above k x ≠ none := by
  intro hnone
  have hlong : k ≤ m + k * (n + 1) := by
    have := Nat.le_mul_of_pos_right k (Nat.le_add_left 1 n)
    omega
  cases (above_eq_none hnone hlong).symm.trans (above_round h hround k)

lemma exists_round_of_size_lt (h : g.above n x = some y) (hn : g.size < n) :
    ∃ m k, g.above m x = some y ∧ g.above (k + 1) y = some y := by
  obtain ⟨m, hm, hy⟩ := exists_above_le_size h
  obtain ⟨z, hz, hrest⟩ := exists_above h (show m ≤ n by omega)
  obtain rfl := Option.some.inj (hy.symm.trans hz)
  obtain ⟨k, hk⟩ := Nat.exists_eq_add_of_lt (show m < n by omega)
  refine ⟨m, k, hy, ?_⟩
  rwa [show n - m = k + 1 by omega] at hrest

lemma depthOf_eq_circular_iff : g.depthOf role = .error (.circular role) ↔
    g.contains role = true ∧
      ∃ m x, g.above m role = some x ∧ ∃ k, g.above (k + 1) x = some x := by
  obtain ⟨top, n, hrun, habove, hend⟩ := climbed_run g role
  rw [depthOf, hrun]
  by_cases hc : g.contains role = true
  · simp only [hc, if_true, true_and, Option.bind_some]
    cases hp : g.parent? top with
    | none =>
      refine iff_of_false (by simp) ?_
      rintro ⟨m, x, hx, k, hround⟩
      exact above_ne_none_of_round hx hround _ ((above_succ_eq_none habove).mpr hp)
    | some p =>
      have hon : g.above (n + 1) role = some p := by
        rw [above, habove]
        exact hp
      have hlong := hend.resolve_left (by simp [hp])
      obtain ⟨m, k, hm, hround⟩ := exists_round_of_size_lt hon hlong
      exact iff_of_true rfl ⟨m, p, hm, k, hround⟩
  · simp [hc]

lemma depthOf_eq_unknown_iff :
    g.depthOf role = .error (.unknown role) ↔ g.contains role = false := by
  rw [depthOf]
  cases g.contains role with
  | false => simp
  | true =>
    simp only [if_true]
    split <;> simp

lemma heightBelow_le (g : RoleGraph) (role : String) : g.heightBelow role ≤ g.size := by
  refine Walk.run_preserves (P := fun d : Descent => d.height ≤ g.size) ?_
    (g.size * (g.size + 1) + 1) (s := ⟨[(role, 0)], 0⟩) (Nat.zero_le _)
  intro d d' hstep hd
  obtain ⟨top, level, rest, -, hlevel, rfl⟩ := descentStep_cases hstep
  exact Nat.max_le.mpr ⟨hd, hlevel⟩

lemma exists_turns (g : RoleGraph) (role : String) :
    ∃ k d, Walk.Takes g.descentStep k ⟨[(role, 0)], 0⟩ d ∧ g.descentStep d = none ∧
      d.height = g.heightBelow role ∧
      k + (if d.pending.isEmpty then 0 else 1) ≤ 1 + g.size * (g.size + 1) := by
  have hvisits : g.outstanding ⟨[(role, 0)], 0⟩ ≤ 1 + g.size * g.size := by
    simpa [outstanding] using length_visits_le g g.size role
  obtain ⟨k, hk, d, htakes, hend⟩ := Walk.exists_takes g.outstanding outstanding_lt hvisits
  have hrun : Walk.run g.descentStep (g.size * (g.size + 1) + 1) ⟨[(role, 0)], 0⟩ = d :=
    htakes.run_eq hend (by rw [Nat.mul_succ]; omega)
  refine ⟨k, d, htakes, hend, by rw [heightBelow, hrun], ?_⟩
  rw [Nat.mul_succ]
  cases hpending : d.pending with
  | nil =>
    simp only [List.isEmpty_nil, if_true]
    omega
  | cons p rest =>
    have hmeasured : g.Measured role d := hrun ▸ Walk.run_preserves Measured.step _
      (s := ⟨[(role, 0)], 0⟩) ⟨by simp [above], role, rfl⟩
    have hlevel : g.size < p.2 := by
      rw [descentStep, hpending] at hend
      by_contra hle
      simp [hle] at hend
    obtain ⟨l, hl⟩ := Nat.exists_eq_add_of_lt hlevel
    have habove := hmeasured.levels p (by simp [hpending])
    rw [hl] at habove
    have hpos : 0 < g.size := by
      obtain ⟨r, hr, -⟩ := List.mem_map.mp (contains_iff.mp (contains_of_above habove))
      exact List.length_pos_of_mem hr
    simp only [List.isEmpty_cons, Bool.false_eq_true, if_false]
    omega

lemma le_heightBelow_of_acyclic (h : ∀ n, g.above (n + 1) role ≠ some role)
    (hx : g.above m x = some role) : m ≤ g.heightBelow role := by
  refine le_heightBelow hx ?_
  by_contra hlong
  obtain ⟨n, k, -, hround⟩ := exists_round_of_size_lt hx (Nat.lt_of_not_le hlong)
  exact h k hround

/-- For every list of roles, whatever its cycles. The depth of a role is told if the role is live and
its way up ends after so many hops; a cycle is reported if the role is live and its way up comes to
one; and a role that is not live is reported as unknown. The descent below a role takes off no more
than `1 + n * (n + 1)` roles, with `n` live roles in the list: one with every step, and one more where
a level beyond the number of roles ends it. The height is at most `n`, and without a cycle at or below
the role it is the length of a longest chain of live roles, each the parent of the next one, down from
it. -/
theorem measures_exact (roles : List Role) (id : String) :
    let n := roles.countP (·.isLive)
    (∀ d, (ofRoles roles).depthOf id = .ok d ↔ (live? roles id).isSome = true ∧
      ∃ top, Hops roles d id top ∧ ∀ p, ¬ Under roles top p) ∧
    ((ofRoles roles).depthOf id = .error (.circular id) ↔ (live? roles id).isSome = true ∧
      ∃ m x, Hops roles m id x ∧ OnCycle roles x) ∧
    ((ofRoles roles).depthOf id = .error (.unknown id) ↔ live? roles id = none) ∧
    (∃ k d, Walk.Takes (ofRoles roles).descentStep k ⟨[(id, 0)], 0⟩ d ∧
      (ofRoles roles).descentStep d = none ∧ d.height = (ofRoles roles).heightBelow id ∧
      k + (if d.pending.isEmpty then 0 else 1) ≤ 1 + n * (n + 1)) ∧
    (ofRoles roles).heightBelow id ≤ n ∧
    ((∀ m x, Hops roles m x id → ¬ OnCycle roles x) →
      IsGreatest {m | ∃ x, Hops roles m x id} ((ofRoles roles).heightBelow id)) := by
  intro n
  have hsize : (ofRoles roles).size ≤ n := size_ofRoles_le roles
  refine ⟨fun d => ?_, ?_, ?_, ?_, ?_, fun hopen => ⟨?_, ?_⟩⟩
  · simp only [depthOf_eq_ok_iff, contains_ofRoles, above_ofRoles_iff, ← parent?_ofRoles_iff,
      Option.eq_none_iff_forall_ne_some, ne_eq]
  · simp only [depthOf_eq_circular_iff, contains_ofRoles, above_ofRoles_iff, OnCycle]
  · rw [depthOf_eq_unknown_iff, contains_ofRoles, Option.isSome_eq_false_iff,
      Option.isNone_iff_eq_none]
  · obtain ⟨k, d, htakes, hend, hheight, hturns⟩ := exists_turns (ofRoles roles) id
    refine ⟨k, d, htakes, hend, hheight, Nat.le_trans hturns ?_⟩
    exact Nat.add_le_add_left (Nat.mul_le_mul hsize (Nat.succ_le_succ hsize)) 1
  · exact Nat.le_trans (heightBelow_le _ _) hsize
  · obtain ⟨x, hx⟩ := exists_above_heightBelow (ofRoles roles) id
    exact ⟨x, above_ofRoles_iff.mp hx⟩
  · rintro m ⟨x, hx⟩
    refine le_heightBelow_of_acyclic (fun k hround => ?_) (above_ofRoles_iff.mpr hx)
    exact hopen 0 id (.here id) ⟨k, above_ofRoles_iff.mp hround⟩

def rookery : List Role :=
  [{ Role.global "c" "Watcher" with parent := some "g" },
    { Role.global "a" "Warden" with parent := some "d" },
    { Role.global "b" "Keeper" with parent := some "a" },
    { Role.global "c" "Watcher" with parent := some "b" },
    { Role.global "d" "Curator" with isActive := false },
    { Role.global "f" "Left" with parent := some "g" },
    { Role.global "g" "Right" with parent := some "f" },
    { Role.global "h" "Lower" with parent := some "f" }]

theorem measures_exact_rookery :
    (∃ top, Hops rookery 2 "c" top ∧ ∀ p, ¬ Under rookery top p) ∧
    (∃ m x, Hops rookery m "h" x ∧ OnCycle rookery x) ∧ live? rookery "d" = none ∧
    (∀ m x, Hops rookery m x "a" → ¬ OnCycle rookery x) ∧
    IsGreatest {m | ∃ x, Hops rookery m x "a"} 2 := by
  have hends : ∀ m x, Hops rookery m x "a" → ¬ OnCycle rookery x := by
    rintro m x hx ⟨n, hround⟩
    have htop : (ofRoles rookery).parent? "a" = none := by decide +kernel
    refine above_ne_none_of_round (m := 0) rfl (above_ofRoles_iff.mpr hround) (m + 1) ?_
    exact (above_succ_eq_none (above_ofRoles_iff.mpr hx)).mpr htop
  have hdepth : (ofRoles rookery).depthOf "c" = .ok 2 := by decide +kernel
  have hcircular : (ofRoles rookery).depthOf "h" = .error (.circular "h") := by decide +kernel
  have hunknown : (ofRoles rookery).depthOf "d" = .error (.unknown "d") := by decide +kernel
  have hheight : (ofRoles rookery).heightBelow "a" = 2 := by decide +kernel
  refine ⟨(((measures_exact rookery "c").1 2).mp hdepth).2,
    ((measures_exact rookery "h").2.1.mp hcircular).2,
    (measures_exact rookery "d").2.2.1.mp hunknown, hends, ?_⟩
  rw [← hheight]
  exact (measures_exact rookery "a").2.2.2.2.2 hends

end AccessControl.RoleGraph
