import AccessControl.Proofs.RoleForests
import Mathlib.Order.Bounds.Basic

/-! The check of a new parent is made before the role has it, in the graph of the roles as they are.
What it says is true of the roles as they would be: the link is refused exactly if they would go
round, or if a chain through the role would be too long, and the length it names is that of a longest
one. -/

namespace AccessControl

namespace RoleGraph

variable {g g' : RoleGraph} {id parent a b x : String} {d m n : Nat}

structure Moved (g g' : RoleGraph) (id parent : String) : Prop where
  moved : g'.parent? id = some parent
  kept : ∀ x, x ≠ id → g'.parent? x = g.parent? x

lemma above_congr (h : ∀ x, x ≠ id → g'.parent? x = g.parent? x)
    (ha : ∀ m < n, g.above m a ≠ some id) : g'.above n a = g.above n a := by
  induction n with
  | zero => rfl
  | succ n ih =>
    rw [above, above, ih fun m hm => ha m (Nat.lt_succ_of_lt hm)]
    cases hx : g.above n a with
    | none => rfl
    | some x =>
      refine h x ?_
      rintro rfl
      exact ha n (Nat.lt_succ_self n) hx

lemma exists_above_congr (h : ∀ x, x ≠ id → g'.parent? x = g.parent? x)
    (hn : g.above n a = some id) : ∃ m, g'.above m a = some id := by
  classical
  have hway : ∃ n, g.above n a = some id := ⟨n, hn⟩
  refine ⟨Nat.find hway, ?_⟩
  rw [above_congr h fun m hm => Nat.find_min hway hm]
  exact Nat.find_spec hway

lemma Acyclic.above_congr (hg : g.Acyclic) (h : ∀ x, x ≠ id → g'.parent? x = g.parent? x)
    (hn : g.above n a = some id) : g'.above n a = some id := by
  rw [RoleGraph.above_congr h, hn]
  intro m hm hid
  exact Nat.ne_of_lt hm (hg.eq_of_above hid hn)

lemma contains_of_above_start (hb : g.contains b = true) (h : g.above n a = some b) :
    g.contains a = true := by
  cases n with
  | zero =>
    obtain rfl := Option.some.inj h
    exact hb
  | succ n =>
    obtain ⟨z, hz, -⟩ := exists_above h (Nat.succ_le_succ (Nat.zero_le n))
    obtain ⟨-, c, hc, rfl⟩ := parent?_eq_some.mp (show g.parent? a = some z from hz)
    exact contains_iff.mpr (List.mem_map.mpr ⟨c, (mem_children.mp hc).1, rfl⟩)

namespace Moved

lemma kept_symm (h : g.Moved g' id parent) (x : String) (hx : x ≠ id) :
    g.parent? x = g'.parent? x :=
  (h.kept x hx).symm

lemma above_succ (h : g.Moved g' id parent) (n : Nat) :
    g'.above (n + 1) id = g'.above n parent := by
  rw [Nat.add_comm, above_add, show g'.above 1 id = some parent from h.moved]
  rfl

lemma acyclic_iff (h : g.Moved g' id parent) (hg : g.Acyclic) :
    g'.Acyclic ↔ ∀ n, g.above n parent ≠ some id := by
  constructor
  · intro hg' n hn
    obtain ⟨m, hm⟩ := exists_above_congr h.kept hn
    exact hg' m id ((h.above_succ m).trans hm)
  · intro hopen n x hround
    by_cases hmet : ∃ m, g'.above m x = some id
    · obtain ⟨m, hm⟩ := hmet
      have hback : g'.above (n + 1) id = some id := by
        have hcomm := congrArg (fun k => g'.above k x) (Nat.add_comm m (n + 1))
        simp only [above_add, hm, hround, Option.bind_some] at hcomm
        exact hcomm
      obtain ⟨k, hk⟩ := exists_above_congr h.kept_symm ((h.above_succ n).symm.trans hback)
      exact hopen k hk
    · refine hg n x ?_
      rw [above_congr h.kept_symm fun m _ hm => hmet ⟨m, hm⟩]
      exact hround

lemma isGreatest (h : g.Moved g' id parent) (hg : g.Acyclic) (hg' : g'.Acyclic)
    (hd : g.depthOf parent = .ok d) :
    IsGreatest {n | ∃ m k a b, n = m + k ∧ g'.above m a = some id ∧ g'.above k id = some b}
      (d + 1 + g.heightBelow id) := by
  have hopen := (h.acyclic_iff hg).mp hg'
  have habove : ∀ k, g'.above (k + 1) id = g.above k parent := fun k =>
    (h.above_succ k).trans (above_congr h.kept fun m _ => hopen m)
  constructor
  · obtain ⟨a, ha⟩ := g.exists_above_heightBelow id
    obtain ⟨-, ⟨top, htop⟩, -⟩ := depthOf_eq_ok.mp hd
    exact ⟨g.heightBelow id, d + 1, a, top, Nat.add_comm _ _, hg.above_congr h.kept ha,
      (habove d).trans htop⟩
  · rintro n ⟨m, k, a, b, rfl, hm, hk⟩
    have hbelow : g.above m a = some id := hg'.above_congr h.kept_symm hm
    have hheight := le_heightBelow hbelow (hg.le_size hbelow)
    cases k with
    | zero => omega
    | succ k =>
      have hdepth := le_of_depthOf hd ((habove k).symm.trans hk)
      omega

end Moved

end RoleGraph

namespace Store

def reparented (s : Store) (role : Role) (parent : String) : Store :=
  { s with roles := s.roles.insert { (s.role? role.id).getD role with parent := some parent } }

def RolesAcyclic (s : Store) : Prop :=
  ∀ n id, ¬ s.RolePath none (n + 1) id id

def ChainThrough (s : Store) (id : String) (n : Nat) : Prop :=
  ∃ m k a b, n = m + k ∧ s.RolePath none m a id ∧ s.RolePath none k id b

variable {s s' : Store} {g g' : RoleGraph} {role : Role} {id parent : String} {maxDepth : Nat}

lemma Shown.chainThrough_iff (h : s.Shown g) (hc : g.contains id = true) {n : Nat} :
    s.ChainThrough id n ↔
      ∃ m k a b, n = m + k ∧ g.above m a = some id ∧ g.above k id = some b := by
  simp only [ChainThrough, h.rolePath_iff, hc, true_and]
  constructor
  · rintro ⟨m, k, a, b, hn, ⟨-, hm⟩, hk⟩
    exact ⟨m, k, a, b, hn, hm, hk⟩
  · rintro ⟨m, k, a, b, hn, hm, hk⟩
    exact ⟨m, k, a, b, hn, ⟨RoleGraph.contains_of_above_start hc hm, hm⟩, hk⟩

lemma Shown.parent?_congr (h : s.Shown g) (h' : s'.Shown g') (hid : s'.role? id = s.role? id)
    (hc : ∀ id, (∃ x, s'.Usable none id x) ↔ ∃ x, s.Usable none id x) :
    g'.parent? id = g.parent? id := by
  have hget : g'.roles.get? id = g.roles.get? id := by
    apply Option.ext
    intro x
    rw [h' id x, h id x, usable_none, usable_none, hid]
  have hcontains : g'.contains = g.contains := funext fun id =>
    Bool.eq_iff_iff.mpr (h'.contains.trans ((hc id).trans h.contains.symm))
  rw [RoleGraph.parent?, RoleGraph.parent?, hget, hcontains]

lemma role?_reparented (s : Store) (role : Role) (parent id : String) :
    (s.reparented role parent).role? id = if role.id = id then
      some { (s.role? role.id).getD role with parent := some parent } else s.role? id := by
  have hid : ((s.role? role.id).getD role).id = role.id := by
    cases h : s.role? role.id with
    | none => rfl
    | some old => exact role?_id h
  rw [reparented, role?_insert]
  simp only [hid]

lemma role?_hosting_of_ne (hne : role.id ≠ id) : (s.hosting role).role? id = s.role? id := by
  cases h : s.role? role.id with
  | some old => rw [hosting_of_stored h]
  | none => rw [hosting_of_new h, role?_insert, if_neg hne]

section Begun

variable (hrole : (∃ old, s.Usable none role.id old) ∨
  s.role? role.id = none ∧ role.isLive = true)
include hrole

lemma exists_usable_hosting : ∃ x, (s.hosting role).Usable none role.id x := by
  rcases hrole with ⟨old, hold⟩ | ⟨hnew, hlive⟩
  · rw [hosting_of_stored hold.1]
    exact ⟨old, hold⟩
  · rw [hosting_of_new hnew]
    exact ⟨{ role with parent := none }, usable_none.mpr ⟨by rw [role?_insert, if_pos rfl], hlive⟩⟩

lemma usable_reparented (parent : String) : (s.reparented role parent).Usable none role.id
    { (s.role? role.id).getD role with parent := some parent } := by
  refine usable_none.mpr ⟨by rw [role?_reparented, if_pos rfl], ?_⟩
  rcases hrole with ⟨old, hold⟩ | ⟨hnew, hlive⟩
  · rw [hold.1]
    exact (usable_none.mp hold).2
  · rw [hnew]
    exact hlive

lemma exists_usable_reparented_iff (parent id : String) :
    (∃ x, (s.reparented role parent).Usable none id x) ↔
      ∃ x, (s.hosting role).Usable none id x := by
  by_cases hid : role.id = id
  · subst hid
    exact iff_of_true ⟨_, usable_reparented hrole parent⟩ (exists_usable_hosting hrole)
  · simp only [usable_none, role?_hosting_of_ne hid, role?_reparented, if_neg hid]

lemma moved_reparented {above : Role} (habove : s.Usable none parent above) :
    (RoleGraph.ofRoles (Admin.rolesWith s.roles.rows role)).Moved
      (.ofRoles (s.reparented role parent).roles.rows) role.id parent := by
  have hshown := shown_hosting s role
  have hshown' := shown_ofRoles (s.reparented role parent)
  constructor
  · have hparent : ∃ x, (s.reparented role parent).Usable none parent x := by
      refine (exists_usable_reparented_iff hrole parent parent).mpr ⟨above, ?_⟩
      exact usable_none.mpr ⟨role?_hosting habove.1 role, (usable_none.mp habove).2⟩
    rw [RoleGraph.parent?, (hshown' role.id _).mpr (usable_reparented hrole parent),
      Option.bind_some, Option.filter_some, if_pos (hshown'.contains.mpr hparent)]
  · intro x hx
    refine hshown.parent?_congr hshown' ?_ (exists_usable_reparented_iff hrole parent)
    rw [role?_reparented, if_neg hx.symm, role?_hosting_of_ne hx.symm]

lemma RolesAcyclic.hosting (hs : s.RolesAcyclic) : (s.hosting role).RolesAcyclic := by
  rcases hrole with ⟨old, hold⟩ | ⟨hnew, -⟩
  · rw [hosting_of_stored hold.1]
    exact hs
  · intro n id hround
    have hne : role.id ≠ id := by
      rintro rfl
      cases hround with
      | @up _ _ y x _ _ hpath hx hp _ =>
        have hy : role.id ≠ y := by
          rintro rfl
          rw [hosting_of_new hnew, role?_insert, if_pos rfl] at hx
          obtain rfl := Option.some.inj hx
          cases hp
        obtain ⟨z, hz⟩ := (hpath.of_hosting hnew hy).usable_start
        cases hnew.symm.trans hz.1
    exact hs n id (hround.of_hosting hnew hne)

lemma rolesAcyclic_of_check (hs : s.RolesAcyclic)
    (h : Admin.checkEdgeIn s.roles.rows maxDepth role parent = .ok ()) :
    (∃ above, s.Usable none parent above) ∧ (s.reparented role parent).RolesAcyclic := by
  obtain ⟨⟨above, habove, rfl, hlive⟩, hcycle, -⟩ := checkEdgeIn_ok h
  have husable : s.Usable none above.id above := usable_none.mpr ⟨Table.get?_of_mem habove, hlive⟩
  have hg := (shown_hosting s role).acyclic_iff.mpr (hs.hosting hrole)
  refine ⟨⟨above, husable⟩, (shown_ofRoles _).acyclic_iff.mp ?_⟩
  refine ((moved_reparented hrole husable).acyclic_iff hg).mpr fun n hn => ?_
  exact Bool.eq_false_iff.mp hcycle (RoleGraph.wouldCreateCycle_iff.mpr ⟨n, hn⟩)

lemma exists_longest_of_acyclic (hs : s.RolesAcyclic) {above : Role}
    (habove : s.Usable none parent above) (hopen : (s.reparented role parent).RolesAcyclic)
    (maxDepth : Nat) :
    ∃ longest, IsGreatest {n | (s.reparented role parent).ChainThrough role.id n} longest ∧
      Admin.checkEdgeIn s.roles.rows maxDepth role parent =
        if maxDepth < longest then .error (.cycleOrDepth role.id longest) else .ok () := by
  have hshown := shown_hosting s role
  have hshown' := shown_ofRoles (s.reparented role parent)
  have hmoved := moved_reparented hrole habove
  have hg := hshown.acyclic_iff.mpr (hs.hosting hrole)
  have hg' := hshown'.acyclic_iff.mpr hopen
  obtain ⟨hget, hlive⟩ := usable_none.mp habove
  obtain ⟨d, hd⟩ := hg.exists_depthOf (hshown.contains.mpr
    ⟨above, usable_none.mpr ⟨role?_hosting hget role, hlive⟩⟩)
  have hchains : ∀ n, (s.reparented role parent).ChainThrough role.id n ↔ _ := fun n =>
    hshown'.chainThrough_iff (hshown'.contains.mpr ⟨_, usable_reparented hrole parent⟩)
  have hstored : s.roles.rows.any (fun r => r.id == parent && r.isLive) = true :=
    List.any_eq_true.mpr ⟨above, Table.mem_of_get? hget, by simp [role?_id hget, hlive]⟩
  have hcycle : (RoleGraph.ofRoles (Admin.rolesWith s.roles.rows role)).wouldCreateCycle role.id
      parent = false := Bool.eq_false_iff.mpr fun hcycle => by
    obtain ⟨n, hn⟩ := RoleGraph.wouldCreateCycle_iff.mp hcycle
    exact (hmoved.acyclic_iff hg).mp hg' n hn
  refine ⟨d + 1 + (RoleGraph.ofRoles (Admin.rolesWith s.roles.rows role)).heightBelow role.id,
    ?_, ?_⟩
  · simp only [hchains]
    exact hmoved.isGreatest hg hg' hd
  · simp [Admin.checkEdgeIn, hstored, hcycle, RoleGraph.chainDepthWithParent, hd, bind,
      Except.bind]

end Begun

/-- The check of a new parent is exact: it lets through the links to a live parent that leave the
live roles without a cycle and no chain through the role longer than the limit. When a chain alone is
too long, it names the length of a longest one. -/
theorem checkParentEdge_exact (ha : s.available = true) (hs : s.RolesAcyclic)
    (hrole : (∃ old, s.Usable none role.id old) ∨ s.role? role.id = none ∧ role.isLive = true)
    (maxDepth : Nat) (parent : String) :
    (Admin.checkParentEdge s maxDepth role parent = .ok () ↔
      (∃ above, s.Usable none parent above) ∧ (s.reparented role parent).RolesAcyclic ∧
        ∀ n, (s.reparented role parent).ChainThrough role.id n → n ≤ maxDepth) ∧
    ((∃ above, s.Usable none parent above) → (s.reparented role parent).RolesAcyclic →
      ∃ longest, IsGreatest {n | (s.reparented role parent).ChainThrough role.id n} longest ∧
        (maxDepth < longest → Admin.checkParentEdge s maxDepth role parent =
          .error (.cycleOrDepth role.id longest))) := by
  have hcheck : Admin.checkParentEdge s maxDepth role parent =
      Admin.checkEdgeIn s.roles.rows maxDepth role parent := by
    rw [Admin.checkParentEdge, read_of_available ha]
    rfl
  rw [hcheck]
  constructor
  · constructor
    · intro h
      obtain ⟨⟨above, habove⟩, hopen⟩ := rolesAcyclic_of_check hrole hs h
      obtain ⟨longest, hlongest, hverdict⟩ :=
        exists_longest_of_acyclic hrole hs habove hopen maxDepth
      refine ⟨⟨above, habove⟩, hopen, fun n hn => Nat.le_trans (hlongest.2 hn) ?_⟩
      by_contra hlong
      rw [hverdict, if_pos (Nat.lt_of_not_le hlong)] at h
      cases h
    · rintro ⟨⟨above, habove⟩, hopen, hshort⟩
      obtain ⟨longest, hlongest, hverdict⟩ :=
        exists_longest_of_acyclic hrole hs habove hopen maxDepth
      rw [hverdict, if_neg (Nat.not_lt.mpr (hshort longest hlongest.1))]
  · rintro ⟨above, habove⟩ hopen
    obtain ⟨longest, hlongest, hverdict⟩ := exists_longest_of_acyclic hrole hs habove hopen maxDepth
    exact ⟨longest, hlongest, fun hlong => hverdict.trans (if_pos hlong)⟩

lemma rolesAcyclic_of_lt (h : ∀ id role p, s.role? id = some role → role.parent = some p → p < id) :
    s.RolesAcyclic := by
  have hpath : ∀ n a b, s.RolePath none n a b → n = 0 ∧ a = b ∨ b < a := by
    intro n a b hpath
    induction hpath with
    | here _ => exact Or.inl ⟨rfl, rfl⟩
    | up _ hx hp _ ih =>
      rcases ih with ⟨-, rfl⟩ | hlt
      · exact Or.inr (h _ _ _ hx hp)
      · exact Or.inr (String.lt_trans (h _ _ _ hx hp) hlt)
  intro n id hround
  rcases hpath _ _ _ hround with ⟨hn, -⟩ | hlt
  · exact Nat.succ_ne_zero n hn
  · exact String.lt_irrefl id hlt

def waiting : Store :=
  { Store.empty with
    roles := .ofList [.global "a" "A", { Role.global "b" "B" with parent := some "a" },
      { Role.global "d" "D" with parent := some "c" }] }

theorem checkParentEdge_exact_waiting :
    waiting.available = true ∧ waiting.RolesAcyclic ∧
    (waiting.role? "c" = none ∧ (Role.global "c" "C").isLive = true) ∧
    (waiting.reparented (.global "c" "C") "b").RolesAcyclic ∧
    IsGreatest {n | (waiting.reparented (.global "c" "C") "b").ChainThrough "c" n} 3 := by
  have hrows : ∀ role ∈ waiting.roles.rows, ∀ p ∈ role.parent, p < role.id := by decide +kernel
  have hs : waiting.RolesAcyclic := rolesAcyclic_of_lt fun id role p h hp =>
    role?_id h ▸ hrows role (Table.mem_of_get? h) p hp
  have hnew : waiting.role? "c" = none ∧ (Role.global "c" "C").isLive = true := by decide +kernel
  have hthree : Admin.checkParentEdge waiting 3 (.global "c" "C") "b" = .ok () := by decide +kernel
  have htwo : Admin.checkParentEdge waiting 2 (.global "c" "C") "b" =
      .error (.cycleOrDepth "c" 3) := by decide +kernel
  obtain ⟨hlive, hopen, hshort⟩ :=
    (checkParentEdge_exact rfl hs (Or.inr hnew) 3 "b").1.mp hthree
  obtain ⟨longest, hlongest, hlong⟩ :=
    (checkParentEdge_exact rfl hs (Or.inr hnew) 2 "b").2 hlive hopen
  refine ⟨rfl, hs, hnew, hopen, ?_⟩
  rcases Nat.lt_or_ge 2 longest with hlt | hle
  · obtain rfl : longest = 3 := Nat.le_antisymm (hshort longest hlongest.1) hlt
    exact hlongest
  · have hok := (checkParentEdge_exact rfl hs (Or.inr hnew) 2 "b").1.mpr
      ⟨hlive, hopen, fun n hn => Nat.le_trans (hlongest.2 hn) hle⟩
    cases htwo.symm.trans hok

end Store

end AccessControl
