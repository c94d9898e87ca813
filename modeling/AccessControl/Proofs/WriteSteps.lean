import AccessControl.Proofs.Writes

/-! Writes to the store, step by step. What was done before a step that fails stays done; that a write
which fails leaves no trace is due to its order, since all is checked before a row is changed. -/

namespace AccessControl.Store

open MonadExcept (ofExcept)

lemma map_call {α β : Type} (s : Store) (f : α → β) (answer : Except Fault α) :
    (s.call answer).map f = s.call (answer.map f) := by
  rw [call, call]
  split <;> rfl

abbrev Steps := EStateM Fault Store

namespace Steps

variable {α β : Type}

def enter : Steps Unit := do
  unless (← get).available do throw unavailable

def find (row : Store → Option α) (missing : Fault) : Steps α := do
  match row (← get) with
  | some row => pure row
  | none => throw missing

def change (f : Store → Store) : Steps Unit := do
  enter
  modify f

def replace (row : Store → Option α) (entity : Entity) (id : String) (presented : Nat)
    (version : α → Nat) (next : α → α) (put : α → Store → Store) : Steps α := do
  enter
  let stored ← find row (.notFound entity id)
  ofExcept (checkVersion entity id presented (version stored))
  modify (put (next stored))
  return next stored

def insertRole (role : Role) : Steps Unit := do
  ofExcept role.validate
  enter
  if (← get).roles.contains role.id then
    throw (.validation ("role " ++ role.id ++ " already exists"))
  modify fun s => { s with roles := s.roles.insert role }

def updateRole (role : Role) : Steps Role := do
  ofExcept role.validate
  replace (·.role? role.id) .role role.id role.version (·.version)
    (fun stored => { role with version := nextVersion stored.version })
    fun updated s => { s with roles := s.roles.insert updated }

def deleteRole (id : String) (version : Nat) (now : Instant) : Steps Role :=
  replace (·.role? id) .role id version (·.version)
    (fun stored =>
      { stored with
        isActive := false, deletedAt := some now, version := nextVersion stored.version })
    fun deleted s => { s with roles := s.roles.insert deleted }

def updatePermission (row : Permission) : Steps Permission :=
  replace (·.permission? row.id) .permission row.id row.version (·.version)
    (fun stored => { row with version := nextVersion stored.version })
    fun updated s => { s with permissions := s.permissions.insert updated }

def deactivateResourcePermission (id : String) : Steps ResourcePermission := do
  enter
  let (off, rows) ← find (fun s => switchOffGrant id s.resourcePermissions)
    (.notFound .resourcePermission id)
  modify fun s => { s with resourcePermissions := rows }
  return off

def insertGroup (group : Group) : Steps Unit := do
  ofExcept group.validate
  change fun s => { s with groups := s.groups.insert group }

def insertInheritance (edge : Inheritance) : Steps Unit := do
  if edge.parent = edge.child then
    throw (.validation ("group " ++ edge.child ++ " cannot inherit from itself"))
  change fun s => { s with inheritance := s.inheritance ++ [edge] }

def updateBinding (row : Binding) : Steps Binding :=
  replace (·.binding? row.id) .binding row.id row.version (·.version)
    (fun stored => { row with version := nextVersion stored.version })
    fun updated s => { s with bindings := s.bindings.insert updated }

def deleteBinding (id : String) (version : Nat) : Steps Binding :=
  replace (·.binding? id) .binding id version (·.version)
    (fun stored => { stored with isActive := false, version := nextVersion stored.version })
    fun deleted s => { s with bindings := s.bindings.insert deleted }

def result (s : Store) : Except Fault (α × Store) → EStateM.Result Fault Store α
  | .ok (a, s') => .ok a s'
  | .error fault => .error fault s

variable {s : Store} {x : Except Fault α}

lemma bind_ofExcept (q : α → Steps β) :
    (ofExcept x >>= q) s = match x with | .ok a => q a s | .error fault => .error fault s := by
  cases x <;> rfl

lemma bind_enter (q : Unit → Steps β) :
    (enter >>= q) s = if s.available then q () s else .error unavailable s := by
  have henter : enter s = if s.available then .ok () s else .error unavailable s := by
    change (if s.available = true then pure () else throw unavailable : Steps Unit) s = _
    split <;> rfl
  change EStateM.bind enter q s = _
  rw [EStateM.bind, henter]
  cases s.available <;> rfl

lemma bind_find (row : Store → Option α) (missing : Fault) (q : α → Steps β) :
    (find row missing >>= q) s =
      match row s with | some a => q a s | none => .error missing s := by
  have hfind : find row missing s =
      match row s with | some a => .ok a s | none => .error missing s := by
    change (match row s with | some row => pure row | none => throw missing : Steps α) s = _
    cases row s <;> rfl
  change EStateM.bind (find row missing) q s = _
  rw [EStateM.bind, hfind]
  cases row s <;> rfl

lemma result_bind (w : α → Except Fault (β × Store)) :
    result s (x >>= w) = match x with | .ok a => result s (w a) | .error fault => .error fault s := by
  cases x <;> rfl

lemma map_eq (f : α → β) {p : Steps α} {w : Except Fault (α × Store)} (h : p s = result s w) :
    (f <$> p) s = result s (w.map fun (a, s') => (f a, s')) := by
  change EStateM.map f p s = _
  rw [EStateM.map, h]
  cases w <;> rfl

lemma enter_eq (p : Unit → Steps α) {w : Except Fault (α × Store)} (h : p () s = result s w) :
    (enter >>= p) s = result s (s.call w) := by
  rw [bind_enter, call]
  split
  · exact h
  · rfl

lemma change_eq (f : Store → Store) : change f s = result s (Admin.giving () (s.read (f s))) := by
  rw [Admin.giving, read, map_call]
  exact enter_eq _ rfl

lemma discard_eq {p : Steps α} {w : Except Fault (α × Store)} (h : p s = result s w) :
    (discard p : Steps Unit) s = result s (Admin.giving () (w.map (·.2))) := by
  refine (map_eq _ h).trans ?_
  cases w <;> rfl

lemma replace_eq (row : Store → Option α) (entity : Entity) (id : String) (presented : Nat)
    (version : α → Nat) (next : α → α) (put : α → Store → Store) :
    replace row entity id presented version next put s = result s (s.call
      (match row s with
      | none => .error (.notFound entity id)
      | some stored => do
        checkVersion entity id presented (version stored)
        .ok (next stored, put (next stored) s))) := by
  refine enter_eq _ ((bind_find _ _ _).trans ?_)
  cases row s with
  | none => rfl
  | some stored =>
    refine (bind_ofExcept _).trans ?_
    rw [result_bind]
    rfl

lemma giving_bind (w : Except Fault Store) :
    Admin.giving () (x >>= fun _ => w) = x >>= fun _ => Admin.giving () w := by
  cases x <;> rfl

lemma insertRole_eq (role : Role) :
    insertRole role s = result s (Admin.giving () (s.insertRole role)) := by
  refine (bind_ofExcept _).trans ?_
  rw [Store.insertRole, giving_bind, result_bind]
  cases role.validate with
  | error fault => rfl
  | ok _ =>
    simp only
    rw [Admin.giving, map_call]
    refine enter_eq _ ?_
    change (if s.roles.contains role.id = true then throw _ else _ : Steps Unit) s = _
    split <;> rfl

lemma updateRole_eq (role : Role) : updateRole role s = result s (s.updateRole role) := by
  refine (bind_ofExcept _).trans ?_
  rw [Store.updateRole, result_bind]
  cases role.validate with
  | error fault => rfl
  | ok _ =>
    refine (replace_eq ..).trans ?_
    rw [role?]
    cases s.roles.get? role.id <;> rfl

lemma deleteRole_eq (id : String) (version : Nat) (now : Instant) :
    deleteRole id version now s = result s (s.deleteRole id version now) := by
  refine (replace_eq ..).trans ?_
  rw [role?, Store.deleteRole]
  cases s.roles.get? id <;> rfl

lemma updatePermission_eq (row : Permission) :
    updatePermission row s = result s (s.updatePermission row) := by
  refine (replace_eq ..).trans ?_
  rw [permission?, Store.updatePermission]
  cases s.permissions.get? row.id <;> rfl

lemma deactivateResourcePermission_eq (id : String) :
    deactivateResourcePermission id s = result s (s.deactivateResourcePermission id) := by
  refine enter_eq _ ((bind_find _ _ _).trans ?_)
  cases switchOffGrant id s.resourcePermissions <;> rfl

lemma insertGroup_eq (group : Group) :
    insertGroup group s = result s (Admin.giving () (s.insertGroup group)) := by
  refine (bind_ofExcept _).trans ?_
  rw [Store.insertGroup, giving_bind, result_bind]
  cases group.validate with
  | error fault => rfl
  | ok _ =>
    exact change_eq _

lemma insertInheritance_eq (edge : Inheritance) :
    insertInheritance edge s = result s (Admin.giving () (s.insertInheritance edge)) := by
  rw [Store.insertInheritance]
  by_cases he : edge.parent = edge.child
  · rw [if_pos he, insertInheritance, if_pos he]
    rfl
  · rw [if_neg he, insertInheritance, if_neg he]
    exact change_eq _

lemma updateBinding_eq (row : Binding) : updateBinding row s = result s (s.updateBinding row) := by
  refine (replace_eq ..).trans ?_
  rw [binding?, Store.updateBinding]
  cases s.bindings.get? row.id <;> rfl

lemma deleteBinding_eq (id : String) (version : Nat) :
    deleteBinding id version s = result s (s.deleteBinding id version) := by
  refine (replace_eq ..).trans ?_
  rw [binding?, Store.deleteBinding]
  cases s.bindings.get? id <;> rfl

end Steps

inductive Operation : Type 1
  | read {α : Type} (question : Store → α)
  | insertRole (role : Role)
  | updateRole (role : Role)
  | deleteRole (id : String) (version : Nat) (now : Instant)
  | insertUserRole (row : UserRole)
  | deactivateUserRole (principal role : String)
  | insertPermission (row : Permission)
  | updatePermission (row : Permission)
  | insertResource (row : Resource)
  | insertAction (row : Action)
  | insertRolePermission (row : RolePermission)
  | deactivateRolePermission (role permission : String)
  | insertResourcePermission (row : ResourcePermission)
  | deactivateResourcePermission (id : String)
  | insertGroup (group : Group)
  | insertMembership (row : Membership)
  | deactivateMembership (group principal : String)
  | insertGroupRole (row : GroupRole)
  | deactivateGroupRole (group role : String)
  | insertInheritance (edge : Inheritance)
  | insertOrganization (row : Organization)
  | insertBinding (row : Binding)
  | updateBinding (row : Binding)
  | deleteBinding (id : String) (version : Nat)
  | putAttribute (row : Attribute)

namespace Operation

def act (s : Store) : Operation → Except Fault Store
  | read question => (s.read (question s)).map fun _ => s
  | insertRole role => s.insertRole role
  | updateRole role => (s.updateRole role).map (·.2)
  | deleteRole id version now => (s.deleteRole id version now).map (·.2)
  | insertUserRole row => s.insertUserRole row
  | deactivateUserRole principal role => (s.deactivateUserRole principal role).map (·.2)
  | insertPermission row => s.insertPermission row
  | updatePermission row => (s.updatePermission row).map (·.2)
  | insertResource row => s.insertResource row
  | insertAction row => s.insertAction row
  | insertRolePermission row => s.insertRolePermission row
  | deactivateRolePermission role permission =>
    (s.deactivateRolePermission role permission).map (·.2)
  | insertResourcePermission row => s.insertResourcePermission row
  | deactivateResourcePermission id => (s.deactivateResourcePermission id).map (·.2)
  | insertGroup group => s.insertGroup group
  | insertMembership row => s.insertMembership row
  | deactivateMembership group principal => (s.deactivateMembership group principal).map (·.2)
  | insertGroupRole row => s.insertGroupRole row
  | deactivateGroupRole group role => (s.deactivateGroupRole group role).map (·.2)
  | insertInheritance edge => s.insertInheritance edge
  | insertOrganization row => s.insertOrganization row
  | insertBinding row => s.insertBinding row
  | updateBinding row => (s.updateBinding row).map (·.2)
  | deleteBinding id version => (s.deleteBinding id version).map (·.2)
  | putAttribute row => s.putAttribute row

open Steps (change)

def steps : Operation → Steps Unit
  | read question => do
    Steps.enter
    let _ := question (← get)
  | insertRole role => Steps.insertRole role
  | updateRole role => discard (Steps.updateRole role)
  | deleteRole id version now => discard (Steps.deleteRole id version now)
  | insertUserRole row => change fun s => { s with userRoles := s.userRoles ++ [row] }
  | deactivateUserRole principal role => change fun s =>
    { s with userRoles := s.userRoles.map fun u =>
        if u.isActive && u.principal == principal && u.role == role then
          { u with isActive := false } else u }
  | insertPermission row => change fun s => { s with permissions := s.permissions.insert row }
  | updatePermission row => discard (Steps.updatePermission row)
  | insertResource row => change fun s => { s with resources := s.resources.insert row }
  | insertAction row => change fun s => { s with actions := s.actions.insert row }
  | insertRolePermission row =>
    change fun s => { s with rolePermissions := s.rolePermissions ++ [row] }
  | deactivateRolePermission role permission => change fun s =>
    { s with rolePermissions := s.rolePermissions.map fun l =>
        if l.isActive && l.role == role && l.permission == permission then
          { l with isActive := false } else l }
  | insertResourcePermission row =>
    change fun s => { s with resourcePermissions := s.resourcePermissions ++ [row] }
  | deactivateResourcePermission id => discard (Steps.deactivateResourcePermission id)
  | insertGroup group => Steps.insertGroup group
  | insertMembership row => change fun s => { s with memberships := s.memberships ++ [row] }
  | deactivateMembership group principal => change fun s =>
    { s with memberships := s.memberships.map fun m =>
        if m.isActive && m.group == group && m.principal == principal then
          { m with isActive := false } else m }
  | insertGroupRole row => change fun s => { s with groupRoles := s.groupRoles ++ [row] }
  | deactivateGroupRole group role => change fun s =>
    { s with groupRoles := s.groupRoles.map fun g =>
        if g.isActive && g.group == group && g.role == role then
          { g with isActive := false } else g }
  | insertInheritance edge => Steps.insertInheritance edge
  | insertOrganization row => change fun s => { s with organizations := s.organizations.insert row }
  | insertBinding row => change fun s => { s with bindings := s.bindings.insert row }
  | updateBinding row => discard (Steps.updateBinding row)
  | deleteBinding id version => discard (Steps.deleteBinding id version)
  | putAttribute row => change fun s =>
    { s with attributes := s.attributes.filter (fun a => !a.sameSlot row) ++ [row] }

variable {s s' : Store}

lemma steps_eq (s : Store) (op : Operation) :
    op.steps s = Steps.result s (Admin.giving () (op.act s)) := by
  cases op with
  | read question =>
    rw [act, Admin.giving, Store.read, map_call, map_call]
    exact Steps.enter_eq _ rfl
  | insertRole role => exact Steps.insertRole_eq role
  | insertGroup group => exact Steps.insertGroup_eq group
  | insertInheritance edge => exact Steps.insertInheritance_eq edge
  | updateRole role => exact Steps.discard_eq (Steps.updateRole_eq role)
  | deleteRole id version now => exact Steps.discard_eq (Steps.deleteRole_eq id version now)
  | updatePermission row => exact Steps.discard_eq (Steps.updatePermission_eq row)
  | deactivateResourcePermission id =>
    exact Steps.discard_eq (Steps.deactivateResourcePermission_eq id)
  | updateBinding row => exact Steps.discard_eq (Steps.updateBinding_eq row)
  | deleteBinding id version => exact Steps.discard_eq (Steps.deleteBinding_eq id version)
  | deactivateUserRole | deactivateRolePermission | deactivateMembership | deactivateGroupRole =>
    refine (Steps.change_eq _).trans (congrArg (fun w => Steps.result s (Admin.giving () w)) ?_)
    exact (map_call s Prod.snd (.ok (_, _))).symm
  | insertUserRole | insertPermission | insertResource | insertAction | insertRolePermission
  | insertResourcePermission | insertMembership | insertGroupRole | insertOrganization
  | insertBinding | putAttribute => exact Steps.change_eq _

lemma unchanged_of_error {op : Operation} {fault : Fault} (h : op.steps s = .error fault s') :
    s' = s := by
  rw [steps_eq] at h
  cases hw : op.act s with
  | ok written =>
    rw [hw] at h
    cases h
  | error fault' =>
    rw [hw] at h
    exact (EStateM.Result.error.inj h).2.symm

lemma act_of_ok {op : Operation} (h : op.steps s = .ok () s') : op.act s = .ok s' := by
  rw [steps_eq] at h
  cases hw : op.act s with
  | ok written =>
    rw [hw] at h
    rw [(EStateM.Result.ok.inj h).2]
  | error fault =>
    rw [hw] at h
    cases h

end Operation

end AccessControl.Store
