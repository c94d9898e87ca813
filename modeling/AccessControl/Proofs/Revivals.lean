import AccessControl.Proofs.RoleRuns

/-! Which roles can come back: those that join no ways which are too long together, and close no cycle.
As long as only such roles come back, and no longer, the live roles stay a forest of bounded depth. -/

namespace AccessControl

namespace Store

variable {s s' : Store} {maxDepth : Nat} {role old : Role} {a b id : String} {k n : Nat}

inductive Over (s : Store) (role : Role) : Nat → String → Prop
  | here : Over s role 0 role.id
  | parent {n : Nat} {p b : String} : role.parent = some p → s.RolePath none n p b →
      Over s role (n + 1) b

inductive Under (s : Store) (id : String) : Nat → String → Prop
  | here : Under s id 0 id
  | child {n : Nat} {a c : String} {x : Role} : s.RolePath none n a c → s.role? c = some x →
      x.parent = some id → Under s id (n + 1) a

/-- There is room for the role among the live ones. -/
structure Hosts (s : Store) (maxDepth : Nat) (role : Role) : Prop where
  apart : role.parent ≠ some role.id
  opens : ∀ p n c x, role.parent = some p → s.RolePath none n p c → s.role? c = some x →
    x.parent ≠ some role.id
  short : ∀ k n a b, s.Under role.id k a → s.Over role n b → k + n ≤ maxDepth

def Revived (s s' : Store) (role : Role) : Prop :=
  ∃ old, s.role? role.id = some old ∧ old.isLive = false ∧
    s'.role? role.id = some role ∧ role.isLive = true

lemma revives_iff : s.Revives s' ↔ ∃ role, s.Revived s' role := by
  constructor
  · rintro ⟨id, old, role, hold, hdead, hrole, hlive⟩
    obtain rfl := role?_id hrole
    exact ⟨role, old, hold, hdead, hrole, hlive⟩
  · rintro ⟨role, old, hold, hdead, hrole, hlive⟩
    exact ⟨role.id, old, role, hold, hdead, hrole, hlive⟩

section revived

variable (hw : ∀ id, s'.role? id = if role.id = id then some role else s.role? id)
  (hold : s.role? role.id = some old) (hdead : old.isLive = false) (hlive : role.isLive = true)

include hold hdead in
lemma Usable.ne_of_dead {x : Role} (h : s.Usable none id x) : role.id ≠ id := by
  rintro rfl
  obtain ⟨hx, hlive⟩ := usable_none.mp h
  obtain rfl := Option.some.inj (hold.symm.trans hx)
  exact Bool.false_ne_true (hdead.symm.trans hlive)

include hw hold hdead in
lemma Usable.revive {x : Role} (h : s.Usable none id x) : s'.Usable none id x := by
  rw [usable_none, hw, if_neg (h.ne_of_dead hold hdead)]
  exact usable_none.mp h

include hw in
lemma Usable.of_revive {x : Role} (hne : role.id ≠ id) (h : s'.Usable none id x) :
    s.Usable none id x := by
  rw [usable_none, hw, if_neg hne] at h
  exact usable_none.mpr h

include hw hlive in
lemma usable_revived : s'.Usable none role.id role :=
  usable_none.mpr ⟨(hw role.id).trans (if_pos rfl), hlive⟩

include hold hdead in
lemma RolePath.ne_of_dead (h : s.RolePath none n a b) : role.id ≠ b := by
  obtain ⟨x, hx⟩ := h.usable
  exact hx.ne_of_dead hold hdead

include hw hold hdead in
lemma RolePath.revive (h : s.RolePath none n a b) : s'.RolePath none n a b := by
  induction h with
  | here hu => exact .here (hu.revive hw hold hdead)
  | up hpath hx hp hu ih =>
    refine .up ih ?_ hp (hu.revive hw hold hdead)
    rw [hw, if_neg (hpath.ne_of_dead hold hdead)]
    exact hx

include hw hold hdead hlive in
lemma Under.path (h : s.Under role.id k a) : s'.RolePath none k a role.id := by
  cases h with
  | here => exact .here (usable_revived hw hlive)
  | child hpath hx hp =>
    refine .up (hpath.revive hw hold hdead) ?_ hp (usable_revived hw hlive)
    rw [hw, if_neg (hpath.ne_of_dead hold hdead)]
    exact hx

include hw hold hdead hlive in
lemma Over.path (h : s.Over role n b) : s'.RolePath none n role.id b := by
  cases h with
  | here => exact .here (usable_revived hw hlive)
  | @parent n p _ hp hpath =>
    obtain ⟨x, hx⟩ := hpath.usable_start
    have hstep : s'.RolePath none 1 role.id p :=
      .up (.here (usable_revived hw hlive)) (usable_revived hw hlive).1 hp
        (hx.revive hw hold hdead)
    rw [Nat.add_comm]
    exact hstep.trans (hpath.revive hw hold hdead)

include hw hold hdead in
lemma RolePath.of_revive (h : s.Hosts maxDepth role) (hpath : s'.RolePath none n a b) :
    s.RolePath none n a b ∨ ∃ k m, n = k + m ∧ s.Under role.id k a ∧ s.Over role m b := by
  induction hpath with
  | @here id x hu =>
    by_cases hid : role.id = id
    · subst hid
      exact Or.inr ⟨0, 0, rfl, .here, .here⟩
    · exact Or.inl (.here (hu.of_revive hw hid))
  | @up n a id x p above hpath hx hp hu ih =>
    rcases ih with hpath | ⟨k, m, rfl, hunder, hover⟩
    · rw [hw, if_neg (hpath.ne_of_dead hold hdead)] at hx
      by_cases hid : role.id = p
      · subst hid
        exact Or.inr ⟨n + 1, 0, rfl, .child hpath hx hp, .here⟩
      · exact Or.inl (.up hpath hx hp (hu.of_revive hw hid))
    · have hover' : s.Over role (m + 1) p := by
        cases hover with
        | here =>
          rw [hw, if_pos rfl] at hx
          obtain rfl := Option.some.inj hx
          have hid : role.id ≠ p := fun hid => h.apart (hid ▸ hp)
          exact .parent hp (.here (hu.of_revive hw hid))
        | parent hq hpath =>
          rw [hw, if_neg (hpath.ne_of_dead hold hdead)] at hx
          have hid : role.id ≠ p := fun hid => h.opens _ _ _ x hq hpath hx (hid ▸ hp)
          exact .parent hq (.up hpath hx hp (hu.of_revive hw hid))
      exact Or.inr ⟨k, m + 1, rfl, hunder, hover'⟩

include hw hold hdead hlive in
lemma roleForest_revived_iff (hs : s.RoleForest maxDepth) :
    s'.RoleForest maxDepth ↔ s.Hosts maxDepth role := by
  constructor
  · intro hforest
    constructor
    case apart =>
      intro hp
      have hround : s'.RolePath none 1 role.id role.id :=
        .up (.here (usable_revived hw hlive)) (usable_revived hw hlive).1 hp
          (usable_revived hw hlive)
      exact hforest.acyclic 0 role.id hround
    case opens =>
      intro p n c x hp hpath hx hround
      have hover := (Over.parent hp hpath).path hw hold hdead hlive
      have hchild : s'.role? c = some x := by
        rw [hw, if_neg (hpath.ne_of_dead hold hdead)]
        exact hx
      exact hforest.acyclic (n + 1) role.id
        (.up hover hchild hround (usable_revived hw hlive))
    case short =>
      intro k n a b hunder hover
      exact hforest.shallow (k + n) a b
        ((hunder.path hw hold hdead hlive).trans (hover.path hw hold hdead hlive))
  · intro hosts
    refine roleForest_of_shallow fun n a b hpath => ?_
    rcases hpath.of_revive hw hold hdead hosts with hpath | ⟨k, m, rfl, hunder, hover⟩
    · exact hs.shallow n a b hpath
    · exact hosts.short k m a b hunder hover

end revived

def Parented (s : Store) : Prop :=
  ∀ id role parent, s.role? id = some role → role.parent = some parent →
    ∃ above, s.role? parent = some above

lemma Replant.written (h : s.Replant maxDepth s') :
    ∃ role, ∀ id, s'.role? id = if role.id = id then some role else s.role? id := by
  cases h with
  | create role => exact ⟨role, role?_insert s role⟩
  | update old role version => exact ⟨{ role with version := version }, role?_insert s _⟩

lemma stored_of_check {role : Role} {parent : String}
    (h : Admin.checkEdgeIn s.roles.rows maxDepth role parent = .ok ()) :
    ∃ above, s.role? parent = some above := by
  obtain ⟨⟨above, habove, rfl, -⟩, -⟩ := checkEdgeIn_ok h
  exact ⟨above, Table.get?_of_mem habove⟩

lemma Parented.write {role : Role} (h : s.Parented)
    (hw : ∀ id, s'.role? id = if role.id = id then some role else s.role? id)
    (hparent : ∀ p, role.parent = some p → ∃ above, s.role? p = some above) : s'.Parented := by
  have hkept : ∀ {id x}, s.role? id = some x → ∃ y, s'.role? id = some y := by
    intro id x hx
    rw [hw]
    split
    · exact ⟨role, rfl⟩
    · exact ⟨x, hx⟩
  intro id x p hx hp
  rw [hw] at hx
  split at hx
  · obtain rfl := Option.some.inj hx
    exact hkept (hparent p hp).choose_spec
  · exact hkept (h id x p hx hp).choose_spec

lemma Parented.replant (h : s.Parented) (hr : s.Replant maxDepth s') : s'.Parented := by
  cases hr with
  | create role hnew hcheck =>
    exact h.write (role?_insert s role) fun p hp => stored_of_check (hcheck p hp)
  | update old role version hold hcheck =>
    refine h.write (role?_insert s { role with version := version }) fun p hp => ?_
    rcases hcheck p hp with hsame | hcheck
    · exact h role.id old p hold hsame
    · exact stored_of_check hcheck

lemma Revived.written {x : Role} (h : s.Revived s' x)
    (hw : ∀ id, s'.role? id = if role.id = id then some role else s.role? id) : x = role := by
  obtain ⟨old, hold, hdead, hx, hlive⟩ := h
  rw [hw] at hx
  split at hx
  · exact (Option.some.inj hx).symm
  · obtain rfl := Option.some.inj (hold.symm.trans hx)
    exact absurd (hdead.symm.trans hlive) Bool.false_ne_true

lemma roleForest_replant_iff (hs : s.RoleForest maxDepth) (hp : s.Parented)
    (hr : s.Replant maxDepth s') :
    s'.RoleForest maxDepth ↔ ∀ role, s.Revived s' role → s.Hosts maxDepth role := by
  by_cases hrevives : s.Revives s'
  · obtain ⟨role, hrevived⟩ := revives_iff.mp hrevives
    obtain ⟨role', hw⟩ := hr.written
    obtain rfl := hrevived.written hw
    have ⟨old, hold, hdead, _, hlive⟩ := hrevived
    rw [roleForest_revived_iff hw hold hdead hlive hs]
    exact ⟨fun hosts x hx => hx.written hw ▸ hosts, fun hall => hall role hrevived⟩
  · have hplanted : s.Planted maxDepth := ⟨hp, hs.shallow⟩
    exact iff_of_true (roleForest_of_shallow (hplanted.replant hr hrevives).shallow)
      fun role hx => absurd (revives_iff.mpr ⟨role, hx⟩) hrevives

end Store

namespace Engine

open Admin (Operation)

variable {σ : Type} [CacheService σ] {e e₀ : Engine σ}

lemma parented_act {op : Operation} (h : e.store.Parented) (hop : op.OnRoles) :
    (op.act e).store.Parented := by
  rcases Operation.act_replants e hop with he | ⟨s', changes, hr, he⟩
  · rw [he]
    exact h
  · rw [he, (announce_base e s' changes).store]
    exact h.replant hr

lemma roleForest_act_iff {op : Operation} (hop : op.OnRoles)
    (hs : e.store.RoleForest e.maxDepth) (hp : e.store.Parented) :
    (op.act e).store.RoleForest e.maxDepth ↔
      ∀ role, e.store.Revived (op.act e).store role → e.store.Hosts e.maxDepth role := by
  rcases Operation.act_replants e hop with he | ⟨s', changes, hr, he⟩
  · rw [he]
    refine iff_of_true hs ?_
    rintro role ⟨old, hold, hdead, hrole, hlive⟩
    obtain rfl := Option.some.inj (hold.symm.trans hrole)
    exact absurd (hdead.symm.trans hlive) Bool.false_ne_true
  · rw [he, (announce_base e s' changes).store]
    exact Store.roleForest_replant_iff hs hp hr

def performed (e : Engine σ) (ops : List Operation) : Engine σ :=
  ops.foldl (fun e op => op.act e) e

lemma performed_concat (e : Engine σ) (ops : List Operation) (op : Operation) :
    e.performed (ops ++ [op]) = op.act (e.performed ops) := by
  rw [performed, List.foldl_concat]
  rfl

lemma maxDepth_performed {ops : List Operation} (hops : ∀ op ∈ ops, op.OnRoles) :
    (e.performed ops).maxDepth = e.maxDepth := by
  induction ops generalizing e with
  | nil => rfl
  | cons op ops ih =>
    obtain ⟨hop, hops⟩ := List.forall_mem_cons.mp hops
    have hconfig := config_of_settles (Operation.act_replants e hop)
    exact (ih hops).trans (by rw [Engine.maxDepth, Engine.maxDepth, hconfig])

lemma parented_performed {ops : List Operation} (h : e.store.Parented)
    (hops : ∀ op ∈ ops, op.OnRoles) : (e.performed ops).store.Parented := by
  induction ops generalizing e with
  | nil => exact h
  | cons op ops ih =>
    obtain ⟨hop, hops⟩ := List.forall_mem_cons.mp hops
    exact ih (parented_act h hop) hops

/-- In a run of operations on roles from an empty store, the live roles are a forest all along exactly if
every role that comes back finds room. -/
theorem roleForest_iff_hosts (hempty : e₀.store = .empty) {ops : List Operation}
    (hops : ∀ op ∈ ops, op.OnRoles) :
    (∀ before, before <+: ops → (e₀.performed before).store.RoleForest e₀.maxDepth) ↔
      ∀ before op, before ++ [op] <+: ops → ∀ role,
        (e₀.performed before).store.Revived (e₀.performed (before ++ [op])).store role →
          (e₀.performed before).store.Hosts e₀.maxDepth role := by
  have hplanted := planted_empty e₀.maxDepth
  have hstep : ∀ before op, before ++ [op] <+: ops →
      (e₀.performed before).store.RoleForest e₀.maxDepth →
      ((e₀.performed (before ++ [op])).store.RoleForest e₀.maxDepth ↔ ∀ role,
        (e₀.performed before).store.Revived (e₀.performed (before ++ [op])).store role →
          (e₀.performed before).store.Hosts e₀.maxDepth role) := by
    intro before op hpre hs
    have hall : ∀ x ∈ before ++ [op], x.OnRoles := fun x hx => hops x (hpre.subset hx)
    have hbefore : ∀ x ∈ before, x.OnRoles := fun x hx => hall x (List.mem_append_left _ hx)
    have hparented := parented_performed (hempty ▸ hplanted.stored : e₀.store.Parented) hbefore
    have hdepth : (e₀.performed before).maxDepth = e₀.maxDepth := maxDepth_performed hbefore
    have hiff := roleForest_act_iff (hall op (by simp)) (hdepth.symm ▸ hs) hparented
    rwa [hdepth, ← performed_concat] at hiff
  constructor
  · intro hforests before op hpre
    have hbefore : before <+: ops := (List.prefix_append before [op]).trans hpre
    exact (hstep before op hpre (hforests before hbefore)).mp (hforests _ hpre)
  · intro hhosts before
    induction before using List.reverseRecOn with
    | nil =>
      intro _
      change e₀.store.RoleForest e₀.maxDepth
      rw [hempty]
      exact Store.roleForest_of_shallow hplanted.shallow
    | append_singleton before op ih =>
      intro hpre
      have hs := ih ((List.prefix_append before [op]).trans hpre)
      exact (hstep before op hpre hs).mpr (hhosts before op hpre)

end Engine

end AccessControl
