import AccessControl.Proofs.RoleForests
import AccessControl.Proofs.Upkeep

/-! The operations on roles keep the live roles a forest of bounded depth, as long as none of them
brings back a role. While a role does not count it can be given any parent, and its own children are
free to grow; no check compares the two when it counts again. -/

namespace AccessControl

namespace Admin.Operation

variable {σ : Type} [CacheService σ]

def OnRoles : Operation → Prop
  | createRole _ | updateRole _ | setRoleParent _ _ _ | deleteRole _ _ _ => True
  | _ => False

variable {e : Engine σ} {s s' : Store} {maxDepth : Nat} {role : Role} {parent : String}

lemma checkParent_ok (h : checkParent s maxDepth role = .ok ()) (hp : role.parent = some parent) :
    checkEdgeIn s.roles.rows maxDepth role parent = .ok () := by
  rw [checkParent, hp] at h
  obtain ⟨rows, hrows, h⟩ := bind_ok.mp h
  obtain rfl := Store.read_ok hrows
  exact h

lemma replant_of_insertRole (hc : checkParent s maxDepth role = .ok ())
    (h : s.insertRole role = .ok s') : s.Replant maxDepth s' := by
  obtain ⟨-, hnew, rfl⟩ := Store.insertRole_ok h
  exact .create role hnew fun p hp => checkParent_ok hc hp

lemma replant_of_updateRole {role' old : Role} (hold : s.role? role.id = some old)
    (hc : role.parent ≠ old.parent → checkParent s maxDepth role = .ok ())
    (h : s.updateRole role = .ok (role', s')) : s.Replant maxDepth s' := by
  obtain ⟨-, stored, -, -, rfl, rfl⟩ := Store.updateRole_ok h
  apply Store.Replant.update old role _ hold
  intro p hp
  by_cases hsame : role.parent = old.parent
  · exact Or.inl (hsame ▸ hp)
  · exact Or.inr (checkParent_ok (hc hsame) hp)

lemma replant_of_deleteRole {role' : Role} {id : String} {version : Nat} {now : Instant}
    (h : s.deleteRole id version now = .ok (role', s')) : s.Replant maxDepth s' := by
  obtain ⟨stored, hstored, -, rfl, rfl⟩ := Store.deleteRole_ok h
  have hold : s.role? stored.id = some stored := Store.role?_id hstored ▸ hstored
  exact .update stored { stored with isActive := false, deletedAt := some now } _ hold
    fun p hp => Or.inl hp

lemma settles_replant_updateRole (e : Engine σ) (role : Role) :
    Settles (fun s' _ => e.store.Replant e.maxDepth s') e (Admin.updateRole e role).2 := by
  apply settles_commit
  intro role' s' h
  obtain ⟨old, hstored, h⟩ := bind_ok.mp h
  simp only at h
  split at h
  · obtain ⟨⟨⟩, hc, h⟩ := bind_ok.mp h
    exact replant_of_updateRole (storedRole_ok hstored) (fun _ => hc) h
  · rename_i hsame
    exact replant_of_updateRole (storedRole_ok hstored) (fun hne => absurd hne hsame) h

lemma act_replants (e : Engine σ) {op : Operation} (h : op.OnRoles) :
    Settles (fun s' _ => e.store.Replant e.maxDepth s') e (op.act e) := by
  cases op with
  | createRole role =>
    apply settles_commit
    intro role' s' h
    obtain ⟨-, -, h⟩ := bind_ok.mp h
    obtain ⟨⟨⟩, hc, h⟩ := bind_ok.mp h
    exact replant_of_insertRole hc (giving_ok.mp h).2
  | updateRole role => exact settles_replant_updateRole e role
  | setRoleParent id parent version =>
    rw [act, Admin.setRoleParent]
    split
    · exact Or.inl rfl
    · exact settles_replant_updateRole e _
  | deleteRole id version now => exact settles_commit fun _ _ h => replant_of_deleteRole h
  | _ => exact h.elim

end Admin.Operation

namespace Engine

open Admin (Operation checkParent bind_ok giving_ok)
open Admin.Operation (Settles)

variable {σ : Type} [CacheService σ] {e e₀ : Engine σ} {s : Store} {role old : Role}

/-- The engines that operations on roles lead to, which may bring back roles or may not. -/
inductive RoleRun (revivals : Prop) (e₀ : Engine σ) : Engine σ → Prop
  | start : RoleRun revivals e₀ e₀
  | operate {e : Engine σ} {op : Operation} : RoleRun revivals e₀ e → op.OnRoles →
      (e.store.Revives (op.act e).store → revivals) → RoleRun revivals e₀ (op.act e)

lemma RoleRun.config {revivals : Prop} (h : RoleRun revivals e₀ e) : e.config = e₀.config := by
  induction h with
  | start => rfl
  | @operate e op _ hop _ ih => exact (config_of_settles (Operation.act_replants e hop)).trans ih

lemma RoleRun.maxDepth {revivals : Prop} (h : RoleRun revivals e₀ e) :
    e.maxDepth = e₀.maxDepth := by
  rw [Engine.maxDepth, Engine.maxDepth, h.config]

lemma planted_act {op : Operation} (h : e.store.Planted e.maxDepth) (hop : op.OnRoles)
    (hn : ¬ e.store.Revives (op.act e).store) : (op.act e).store.Planted e.maxDepth := by
  rcases Operation.act_replants e hop with he | ⟨s', changes, hr, he⟩
  · rw [he]
    exact h
  · have hstore : (op.act e).store = s' := he ▸ (announce_base e s' changes).store
    rw [hstore] at hn ⊢
    exact h.replant hr hn

lemma RoleRun.planted {revivals : Prop} (hnone : ¬ revivals)
    (h₀ : e₀.store.Planted e₀.maxDepth) (h : RoleRun revivals e₀ e) :
    e.store.Planted e₀.maxDepth := by
  induction h with
  | start => exact h₀
  | @operate e op hrun hop hrevives ih =>
    rw [← hrun.maxDepth] at ih ⊢
    exact planted_act ih hop fun hr => hnone (hrevives hr)

lemma planted_empty (maxDepth : Nat) : Store.empty.Planted maxDepth := by
  have hnone : ∀ id role, Store.empty.role? id ≠ some role := by
    intro id role h
    cases h
  constructor
  · exact fun id role _ h _ => absurd h (hnone id role)
  · intro n a b h
    obtain ⟨role, hu⟩ := h.usable
    exact absurd hu.1 (hnone b role)

def Reaches (e₀ : Engine σ) (s : Store) : Prop :=
  ∃ e, RoleRun True e₀ e ∧ e.store = s

lemma Reaches.create (h : e₀.Reaches s) (role : Role) (ha : s.available = true)
    (hv : role.validate = .ok ()) (hc : checkParent s e₀.maxDepth role = .ok ())
    (hnew : s.roles.contains role.id = false) :
    e₀.Reaches { s with roles := s.roles.insert role } := by
  obtain ⟨e, hrun, rfl⟩ := h
  have hrun' : RoleRun True e₀ ((Operation.createRole role).act e) :=
    .operate hrun trivial fun _ => trivial
  have hinsert : e.store.insertRole role =
      .ok { e.store with roles := e.store.roles.insert role } := by
    refine bind_ok.mpr ⟨(), hv, ?_⟩
    rw [Store.call, if_pos ha, hnew]
    rfl
  refine ⟨_, hrun', store_commit ?_⟩
  rw [← hrun.maxDepth] at hc
  exact ⟨role, bind_ok.mpr ⟨(), hv, bind_ok.mpr ⟨(), hc, giving_ok.mpr ⟨rfl, hinsert⟩⟩⟩⟩

lemma Reaches.update (h : e₀.Reaches s) (old role : Role) (ha : s.available = true)
    (hv : role.validate = .ok ()) (hold : s.role? role.id = some old)
    (hversion : role.version = old.version) (hc : checkParent s e₀.maxDepth role = .ok ()) :
    e₀.Reaches { s with
      roles := s.roles.insert { role with version := Store.nextVersion old.version } } := by
  obtain ⟨e, hrun, rfl⟩ := h
  have hrun' : RoleRun True e₀ ((Operation.updateRole role).act e) :=
    .operate hrun trivial fun _ => trivial
  have hupdate : e.store.updateRole role = .ok
      ({ role with version := Store.nextVersion old.version }, { e.store with
        roles := e.store.roles.insert
          { role with version := Store.nextVersion old.version } }) := by
    refine bind_ok.mpr ⟨(), hv, ?_⟩
    rw [Store.call, if_pos ha, show e.store.roles.get? role.id = some old from hold]
    exact bind_ok.mpr ⟨(), if_pos hversion, rfl⟩
  have hstored : Admin.storedRole e.store role.id = .ok old := by
    refine bind_ok.mpr ⟨some old, ?_, rfl⟩
    rw [← hold]
    exact Store.read_of_available ha _
  refine ⟨_, hrun', store_commit ?_⟩
  rw [← hrun.maxDepth] at hc
  refine ⟨{ role with version := Store.nextVersion old.version }, bind_ok.mpr ⟨old, hstored, ?_⟩⟩
  simp only
  split
  · exact bind_ok.mpr ⟨(), hc, hupdate⟩
  · exact hupdate

def staffed (roles : List Role) : Store :=
  { Store.empty with roles := .ofList roles }

lemma staffed_append (roles : List Role) (role : Role) :
    ({ staffed roles with roles := (staffed roles).roles.insert role } : Store) =
      staffed (roles ++ [role]) := by
  simp only [staffed, Table.ofList, List.foldl_append, List.foldl_cons, List.foldl_nil]

def lead : Role := .global "a" "Lead"

def deputy : Role := { Role.global "b" "Deputy" with parent := some "a" }

def absent : Role := { lead with isActive := false }

def back : Role := { lead with parent := some "b", version := 2 }

def circle : Store :=
  staffed [lead, deputy, { absent with version := 2 }, { back with version := 3 }]

lemma reaches_circle (hd : 0 < e₀.maxDepth) (hd' : e₀.maxDepth ≤ HierarchySettings.deepest)
    (h : e₀.store = .empty) : e₀.Reaches circle := by
  have h₀ : e₀.Reaches (staffed []) := ⟨e₀, .start, h⟩
  have h₁ : e₀.Reaches (staffed [lead]) :=
    staffed_append [] lead ▸ h₀.create lead rfl (by decide +kernel) rfl (by decide +kernel)
  have hdeputy : ∀ m ≤ HierarchySettings.deepest, 0 < m →
      checkParent (staffed [lead]) m deputy = .ok () := by decide +kernel
  have h₂ : e₀.Reaches (staffed [lead, deputy]) := staffed_append [lead] deputy ▸
    h₁.create deputy rfl (by decide +kernel) (hdeputy _ hd' hd) (by decide +kernel)
  have h₃ : e₀.Reaches (staffed [lead, deputy, { absent with version := 2 }]) :=
    staffed_append [lead, deputy] _ ▸ h₂.update lead absent rfl (by decide +kernel)
      (by decide +kernel) rfl rfl
  have hback : ∀ m ≤ HierarchySettings.deepest, 0 < m →
      checkParent (staffed [lead, deputy, { absent with version := 2 }]) m back = .ok () := by
    decide +kernel
  rw [circle]
  exact staffed_append [lead, deputy, { absent with version := 2 }] _ ▸
    h₃.update { absent with version := 2 } back rfl (by decide +kernel) (by decide +kernel) rfl
      (hback _ hd' hd)

lemma circle_round : circle.RolePath none 2 "a" "a" := by
  have hlead : circle.Usable none "a" { back with version := 3 } :=
    Store.usable_none.mpr ⟨by decide +kernel, by decide +kernel⟩
  have hdeputy : circle.Usable none "b" deputy :=
    Store.usable_none.mpr ⟨by decide +kernel, by decide +kernel⟩
  exact .up (.up (.here hlead) hlead.1 rfl hdeputy) hdeputy.1 rfl hlead

lemma depth_of_validate {config : Config} (h : config.validate = .ok ()) :
    0 < config.hierarchy.maxDepth ∧ config.hierarchy.maxDepth ≤ HierarchySettings.deepest := by
  rw [Config.validate] at h
  split at h
  · cases h
  · rename_i hdepth
    omega

/-- For every accepted depth limit, the live roles form a forest within it after every run of
operations on roles from an empty store, exactly if no operation may bring back a role. -/
theorem roleForest_iff_no_revivals {config : Config} (hv : config.validate = .ok ())
    (revivals : Prop) :
    (∀ e₀ e : Engine σ, e₀.config = config → e₀.store = .empty → RoleRun revivals e₀ e →
        e.store.RoleForest config.hierarchy.maxDepth) ↔ ¬ revivals := by
  obtain ⟨hd, hd'⟩ := depth_of_validate hv
  constructor
  · intro hall hrevivals
    let e₀ : Engine σ := ⟨config, [], .empty, none, none, none, ⟨0⟩, .zero⟩
    have hcircle : e₀.Reaches circle := reaches_circle hd hd' rfl
    obtain ⟨e, hrun, hstore⟩ := hcircle
    rw [← eq_true hrevivals] at hrun
    have hforest := hall e₀ e rfl rfl hrun
    rw [hstore] at hforest
    exact hforest.acyclic 1 "a" circle_round
  · rintro hnone e₀ e rfl hempty hrun
    have hplanted : e.store.Planted e₀.maxDepth :=
      hrun.planted hnone (hempty ▸ planted_empty _)
    exact Store.roleForest_of_shallow hplanted.shallow

theorem roleForest_iff_no_revivals_standard :
    Config.standard.validate = .ok () ∧
      (∀ e₀ e : Engine MemoryCache, e₀.config = .standard → e₀.store = .empty →
        RoleRun False e₀ e → e.store.RoleForest 8) ∧
      ¬ ∀ e₀ e : Engine MemoryCache, e₀.config = .standard → e₀.store = .empty →
        RoleRun True e₀ e → e.store.RoleForest 8 := by
  have hv : Config.standard.validate = .ok () := by decide
  exact ⟨hv, (roleForest_iff_no_revivals hv False).mpr id,
    fun h => (roleForest_iff_no_revivals hv True).mp h trivial⟩

end Engine

end AccessControl
