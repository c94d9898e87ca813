import AccessControl.Proofs.Sessions
import AccessControl.Store.Snapshot

/-! Whenever the store becomes unavailable and available again, also in the middle of an operation,
its roles and groups stay valid, and an operation that fails leaves every row as it was: it writes
once, at its end, and only what has been checked. -/

namespace AccessControl

structure Snapshot.Valid (t : Snapshot) : Prop where
  roles : ∀ r ∈ t.roles, r.validate = .ok ()
  groups : ∀ g ∈ t.groups, g.validate = .ok ()

namespace Store

open Admin (bind_ok)

variable {α : Type} {s s' : Store}

lemma valid_of_ofSnapshot {t : Snapshot} (h : ofSnapshot t = .ok s) : s.snapshot.Valid := by
  have hcheck : ∀ {α : Type} {check : α → Except Fault Unit} {rows : List α},
      checkAll check rows = .ok () → ∀ r ∈ rows, check r = .ok () := by
    intro α check rows
    induction rows with
    | nil => exact fun _ _ hr => absurd hr List.not_mem_nil
    | cons row rows ih =>
      intro hc
      obtain ⟨⟨⟩, hrow, hrest⟩ := bind_ok.mp hc
      exact List.forall_mem_cons.mpr ⟨hrow, ih hrest⟩
  obtain ⟨⟨⟩, hroles, h⟩ := bind_ok.mp h
  obtain ⟨⟨⟩, hgroups, h⟩ := bind_ok.mp h
  obtain rfl := Except.ok.inj h
  exact ⟨fun r hr => hcheck hroles r (Table.mem_of_mem_ofList hr),
    fun g hg => hcheck hgroups g (Table.mem_of_mem_ofList hg)⟩

lemma valid_insert_role {role : Role} (h : s.snapshot.Valid) (hr : role.validate = .ok ()) :
    ({ s with roles := s.roles.insert role } : Store).snapshot.Valid := by
  refine ⟨fun r hm => ?_, h.groups⟩
  rcases Table.mem_insert.mp hm with rfl | ⟨hm, -⟩
  · exact hr
  · exact h.roles r hm

lemma valid_insert_group {group : Group} (h : s.snapshot.Valid) (hg : group.validate = .ok ()) :
    ({ s with groups := s.groups.insert group } : Store).snapshot.Valid := by
  refine ⟨h.roles, fun g hm => ?_⟩
  rcases Table.mem_insert.mp hm with rfl | ⟨hm, -⟩
  · exact hg
  · exact h.groups g hm

lemma valid_same (h : s.snapshot.Valid) (hr : s'.roles = s.roles) (hg : s'.groups = s.groups) :
    s'.snapshot.Valid := by
  refine ⟨fun r hm => h.roles r ?_, fun g hm => h.groups g ?_⟩
  · rwa [snapshot, hr] at hm
  · rwa [snapshot, hg] at hm

lemma map_store_ok {w : Except Fault (α × Store)} (h : w.map (·.2) = .ok s') :
    ∃ a, w = .ok (a, s') := by
  cases w with
  | error fault => cases h
  | ok written =>
    obtain rfl := Except.ok.inj h
    exact ⟨written.1, rfl⟩

lemma Operation.valid_act {op : Operation} (h : op.act s = .ok s') (hv : s.snapshot.Valid) :
    s'.snapshot.Valid := by
  cases op with
  | read question =>
    cases hr : s.read (question s) with
    | error fault => simp [act, hr, Except.map] at h
    | ok answer =>
      rw [act, hr] at h
      obtain rfl := Except.ok.inj h
      exact hv
  | insertRole role =>
    obtain ⟨hrole, -, rfl⟩ := insertRole_ok h
    exact valid_insert_role hv hrole
  | updateRole role =>
    obtain ⟨_, h⟩ := map_store_ok h
    obtain ⟨hrole, stored, -, -, rfl, rfl⟩ := updateRole_ok h
    exact valid_insert_role hv hrole
  | deleteRole id version now =>
    obtain ⟨_, h⟩ := map_store_ok h
    obtain ⟨stored, hstored, -, rfl, rfl⟩ := deleteRole_ok h
    exact valid_insert_role hv (hv.roles stored (Table.mem_of_get? hstored))
  | insertGroup group =>
    obtain ⟨hgroup, rfl⟩ := insertGroup_ok h
    exact valid_insert_group hv hgroup
  | updatePermission row =>
    obtain ⟨_, h⟩ := map_store_ok h
    obtain ⟨stored, -, -, -, rfl⟩ := updatePermission_ok h
    exact valid_same hv rfl rfl
  | updateBinding row =>
    obtain ⟨_, h⟩ := map_store_ok h
    obtain ⟨stored, -, -, -, rfl⟩ := updateBinding_ok h
    exact valid_same hv rfl rfl
  | deleteBinding id version =>
    obtain ⟨_, h⟩ := map_store_ok h
    obtain ⟨stored, -, -, -, rfl⟩ := deleteBinding_ok h
    exact valid_same hv rfl rfl
  | deactivateResourcePermission id =>
    obtain ⟨_, h⟩ := map_store_ok h
    obtain ⟨rows, -, rfl⟩ := deactivateResourcePermission_ok h
    exact valid_same hv rfl rfl
  | insertInheritance edge =>
    obtain ⟨-, rfl⟩ := insertInheritance_ok h
    exact valid_same hv rfl rfl
  | deactivateUserRole | deactivateRolePermission | deactivateMembership | deactivateGroupRole =>
    obtain ⟨_, h⟩ := map_store_ok h
    obtain ⟨-, rfl⟩ := Prod.mk.inj (read_ok h)
    exact valid_same hv rfl rfl
  | insertUserRole | insertPermission | insertResource | insertAction | insertRolePermission
  | insertResourcePermission | insertMembership | insertGroupRole | insertOrganization
  | insertBinding | putAttribute =>
    obtain rfl := read_ok h
    exact valid_same hv rfl rfl

end Store

namespace Session

variable {α β : Type}

def left : EStateM.Result Fault Backend α → Backend
  | .ok _ b | .error _ b => b

def Quiet (p : Session α) : Prop :=
  ∀ b, (left (p b)).store.snapshot = b.store.snapshot

/-- The calls keep roles and groups valid, and if they fail they have written nothing. -/
structure Careful (p : Session Unit) : Prop where
  valid : ∀ b, b.store.snapshot.Valid → (left (p b)).store.snapshot.Valid
  unchanged : ∀ {b fault b'}, p b = .error fault b' → b'.store.snapshot = b.store.snapshot

lemma quiet_pure (a : α) : Quiet (pure a) := fun _ => rfl

lemma quiet_throw (fault : Fault) : Quiet (throw fault : Session α) := fun _ => rfl

lemma quiet_check (x : Except Fault α) : Quiet (check x) := by
  cases x with
  | ok a => exact quiet_pure a
  | error fault => exact quiet_throw fault

lemma quiet_read (question : Store → α) : Quiet (read question) := by
  intro b
  rw [read]
  cases b.next.store.read (question b.next.store) <;> rfl

lemma Quiet.bind {p : Session α} {q : α → Session β} (hp : Quiet p) (hq : ∀ a, Quiet (q a)) :
    Quiet (p >>= q) := by
  intro b
  have h := hp b
  change (left (EStateM.bind p q b)).store.snapshot = _
  rw [EStateM.bind]
  cases hb : p b with
  | error fault b' =>
    rw [hb] at h
    exact h
  | ok a b' =>
    rw [hb] at h
    exact (hq a b').trans h

lemma Quiet.bind_careful {p : Session α} {q : α → Session Unit} (hp : Quiet p)
    (hq : ∀ a, Careful (q a)) : Careful (p >>= q) := by
  have hbind : ∀ b, (p >>= q) b = EStateM.bind p q b := fun _ => rfl
  constructor
  case valid =>
    intro b hv
    have h := hp b
    rw [hbind, EStateM.bind]
    cases hb : p b with
    | error fault b' =>
      rw [hb] at h
      exact h ▸ hv
    | ok a b' =>
      rw [hb] at h
      exact (hq a).valid b' (h ▸ hv)
  case unchanged =>
    intro b fault b'' hfails
    have h := hp b
    rw [hbind, EStateM.bind] at hfails
    cases hb : p b with
    | error fault' b' =>
      rw [hb] at h hfails
      obtain ⟨-, rfl⟩ := EStateM.Result.error.inj hfails
      exact h
    | ok a b' =>
      rw [hb] at h hfails
      exact ((hq a).unchanged hfails).trans h

lemma careful_store (op : Store.Operation) : Careful op.session := by
  constructor
  case valid =>
    intro b hv
    rw [Store.Operation.session, write]
    cases hs : op.steps b.next.store with
    | error fault s =>
      obtain rfl := Store.Operation.unchanged_of_error hs
      exact hv
    | ok _ s => exact Store.Operation.valid_act (Store.Operation.act_of_ok hs) hv
  case unchanged =>
    intro b fault b' hfails
    rw [Store.Operation.session, write] at hfails
    cases hs : op.steps b.next.store with
    | error fault' s =>
      rw [hs] at hfails
      obtain ⟨-, rfl⟩ := EStateM.Result.error.inj hfails
      obtain rfl := Store.Operation.unchanged_of_error hs
      rfl
    | ok _ s =>
      rw [hs] at hfails
      cases hfails

lemma quiet_storedRole (id : String) : Quiet (storedRole id) := by
  refine (quiet_read _).bind fun found => ?_
  cases found with
  | none => exact quiet_throw _
  | some role => exact quiet_pure role

lemma quiet_checkParent (maxDepth : Nat) (role : Role) : Quiet (checkParent maxDepth role) := by
  rw [checkParent]
  cases role.parent with
  | none => exact quiet_pure ()
  | some parent => exact (quiet_read _).bind fun _ => quiet_check _

lemma careful_updateRole (maxDepth : Nat) (role : Role) : Careful (updateRole maxDepth role) := by
  refine (quiet_storedRole _).bind_careful fun current => ?_
  simp only
  split
  · exact (quiet_checkParent maxDepth role).bind_careful fun _ => careful_store _
  · exact careful_store _

lemma quiet_subtreeStep (maxDepth : Nat) (w : SubtreeWalk) : Quiet (subtreeStep maxDepth w) := by
  rw [subtreeStep]
  split
  · exact quiet_pure _
  · split
    · exact quiet_pure _
    · split
      · exact (quiet_read _).bind fun _ => quiet_pure _
      · exact quiet_pure _

lemma quiet_subtreeRun (maxDepth n : Nat) (w : SubtreeWalk) : Quiet (subtreeRun maxDepth n w) := by
  induction n generalizing w with
  | zero => exact quiet_pure w
  | succ n ih =>
    refine (quiet_subtreeStep maxDepth w).bind fun next => ?_
    cases next with
    | none => exact quiet_pure w
    | some w' => exact ih w'

lemma quiet_groupSubtree (maxDepth : Nat) (group : String) :
    Quiet (groupSubtree maxDepth group) := by
  have hget : Quiet (get : Session Backend) := fun _ => rfl
  exact hget.bind fun b => (quiet_subtreeRun maxDepth _ _).bind fun _ => quiet_pure _

lemma careful_addInheritance (maxDepth : Nat) (edge : Inheritance) :
    Careful (addInheritance maxDepth edge) := by
  refine (quiet_groupSubtree maxDepth edge.child).bind_careful fun below => ?_
  simp only
  split
  · exact (quiet_throw _).bind_careful fun _ => careful_store _
  · exact careful_store _

end Session

lemma Admin.Operation.careful (maxDepth : Nat) (fresh : String) (op : Admin.Operation) :
    (op.session maxDepth fresh).Careful := by
  open Session in
  cases op with
  | createRole role =>
    exact (quiet_check _).bind_careful fun _ =>
      (quiet_checkParent maxDepth role).bind_careful fun _ => careful_store _
  | updateRole role => exact careful_updateRole maxDepth role
  | setRoleParent id parent version =>
    exact (quiet_storedRole id).bind_careful fun _ => careful_updateRole maxDepth _
  | updateBinding row => exact (quiet_read _).bind_careful fun _ => careful_store _
  | createGroup row => exact (quiet_check _).bind_careful fun _ => careful_store _
  | addInheritance edge => exact careful_addInheritance maxDepth edge
  | deleteRole | assignRole | revokeRole | createPermission | updatePermission | linkPermission
  | unlinkPermission | grantResource | revokeResource | createBinding | deleteBinding
  | assignGroupRole | revokeGroupRole | addMember | removeMember | putAttribute =>
    exact careful_store _

theorem Admin.Operation.intact_act {σ : Type} [CacheService σ] (e : Engine σ) (hd : 0 < e.maxDepth)
    (hv : e.store.snapshot.Valid) (op : Admin.Operation) :
    (op.act e).store.snapshot.Valid ∧
      ∀ fault, op.answer e = .error fault → (op.act e).store.snapshot = e.store.snapshot := by
  have hc := op.careful e.maxDepth e.freshId.1
  have h := outcome_session e hd op
  cases hb : op.session e.maxDepth e.freshId.1 (.steady e.store) with
  | error fault b =>
    rw [hb] at h
    obtain ⟨-, hs⟩ := Prod.mk.inj h
    have hsame : b.store.snapshot = e.store.snapshot := hc.unchanged hb
    rw [← hs]
    exact ⟨hsame ▸ hv, fun _ _ => hsame⟩
  | ok _ b =>
    have hvalid := hc.valid (.steady e.store) hv
    rw [hb] at h hvalid
    obtain ⟨ha, hs⟩ := Prod.mk.inj h
    rw [← hs, ← ha]
    exact ⟨hvalid, fun fault hf => by cases hf⟩

inductive Demand : Type 1
  | store (op : Store.Operation)
  | admin (op : Admin.Operation) (fresh : String)

namespace Demand

def session (maxDepth : Nat) : Demand → Session Unit
  | store op => op.session
  | admin op fresh => op.session maxDepth fresh

lemma careful (maxDepth : Nat) (demand : Demand) : (demand.session maxDepth).Careful := by
  cases demand with
  | store op => exact Session.careful_store op
  | admin op fresh => exact op.careful maxDepth fresh

/-- The stores that a run of demands leads to, whichever of its calls the store answers. -/
inductive Leads (maxDepth : Nat) (start : Store) : Store → Prop
  | start : Leads maxDepth start start
  | next {s : Store} (demand : Demand) (answers : Nat → Bool) : Leads maxDepth start s →
      Leads maxDepth start (Session.left (demand.session maxDepth ⟨s, answers⟩)).store

lemma Leads.valid {maxDepth : Nat} {start s : Store} (h : Leads maxDepth start s)
    (hv : start.snapshot.Valid) : s.snapshot.Valid := by
  induction h with
  | start => exact hv
  | next demand answers _ ih => exact (demand.careful maxDepth).valid _ ih

/-- Wherever a run leads, roles and groups are valid, and what fails there changes no row. -/
theorem intact_of_leads {maxDepth : Nat} {t : Snapshot} {start s : Store}
    (h : Store.ofSnapshot t = .ok start) (hr : Leads maxDepth start s) :
    ((∀ r ∈ s.snapshot.roles, r.validate = .ok ()) ∧
      ∀ g ∈ s.snapshot.groups, g.validate = .ok ()) ∧
    ∀ (demand : Demand) (answers : Nat → Bool) (fault : Fault) (b : Backend),
      demand.session maxDepth ⟨s, answers⟩ = .error fault b → b.store.snapshot = s.snapshot := by
  have hv := hr.valid (Store.valid_of_ofSnapshot h)
  refine ⟨⟨hv.roles, hv.groups⟩, fun demand answers fault b hfails => ?_⟩
  exact (demand.careful maxDepth).unchanged hfails

def roster : Snapshot := { (default : Snapshot) with roles := [.global "lead" "Lead"] }

theorem intact_of_leads_midway :
    let start : Store := { Store.empty with roles := .ofList [.global "lead" "Lead"] }
    let demand : Demand :=
      .admin (.createRole { Role.global "deputy" "Deputy" with parent := some "lead" }) "l"
    let midway : Nat → Bool := fun n => n == 0
    let up : Nat → Bool := fun _ => true
    let s := (Session.left (demand.session 8 ⟨start, up⟩)).store
    Store.ofSnapshot roster = .ok start ∧ Leads 8 start s ∧
      (∀ r ∈ s.snapshot.roles, r.validate = .ok ()) ∧ s.snapshot.roles.length = 2 ∧
      ∃ b, demand.session 8 ⟨start, midway⟩ = .error Store.unavailable b ∧
        b.store.snapshot = start.snapshot := by
  intro start demand midway up s
  have h : Store.ofSnapshot roster = .ok start := rfl
  have hr : Leads 8 start s := .next demand up .start
  have hfails : ∃ b, demand.session 8 ⟨start, midway⟩ = .error Store.unavailable b := ⟨_, rfl⟩
  obtain ⟨b, hb⟩ := hfails
  exact ⟨h, hr, (intact_of_leads h hr).1.1, by decide +kernel, b, hb,
    (intact_of_leads h .start).2 demand midway _ b hb⟩

end Demand

end AccessControl
