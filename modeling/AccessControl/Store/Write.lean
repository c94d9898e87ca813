import AccessControl.Store

/-!
Writes to the store. A write that fails gives back no store, so the rows stay as they were. Rows
with a version are only changed by a write that presents the version they have.
-/

namespace AccessControl.Store

def checkVersion (entity : Entity) (id : String) (expected found : Nat) : Except Fault Unit :=
  if expected = found then .ok () else .error (.conflict entity id expected found)

/-- Versions are words of 64 bits and start over after the largest one. -/
def nextVersion (version : Nat) : Nat := (version + 1) % Word.bound

theorem nextVersion_of_lt {version : Nat} (h : version + 1 < Word.bound) :
    nextVersion version = version + 1 := Nat.mod_eq_of_lt h

def switchOff (chosen : α → Bool) (off : α → α) (rows : List α) : Nat × List α :=
  (rows.countP chosen, rows.map fun r => if chosen r then off r else r)

def insertRole (s : Store) (role : Role) : Except Fault Store := do
  role.validate
  s.call <|
    if s.roles.contains role.id then
      .error (.validation ("role " ++ role.id ++ " already exists"))
    else .ok { s with roles := s.roles.insert role }

def updateRole (s : Store) (role : Role) : Except Fault (Role × Store) := do
  role.validate
  s.call <|
    match s.roles.get? role.id with
    | none => .error (.notFound .role role.id)
    | some stored => do
      checkVersion .role role.id role.version stored.version
      let updated := { role with version := nextVersion stored.version }
      .ok (updated, { s with roles := s.roles.insert updated })

def deleteRole (s : Store) (id : String) (version : Nat) (now : Instant) :
    Except Fault (Role × Store) :=
  s.call <|
    match s.roles.get? id with
    | none => .error (.notFound .role id)
    | some stored => do
      checkVersion .role id version stored.version
      let deleted :=
        { stored with
          isActive := false, deletedAt := some now, version := nextVersion stored.version }
      .ok (deleted, { s with roles := s.roles.insert deleted })

def insertUserRole (s : Store) (row : UserRole) : Except Fault Store :=
  s.read { s with userRoles := s.userRoles ++ [row] }

def deactivateUserRole (s : Store) (principal role : String) : Except Fault (Nat × Store) :=
  let chosen (u : UserRole) := u.isActive && u.principal == principal && u.role == role
  let (count, rows) := switchOff chosen (fun u => { u with isActive := false }) s.userRoles
  s.read (count, { s with userRoles := rows })

def insertPermission (s : Store) (row : Permission) : Except Fault Store :=
  s.read { s with permissions := s.permissions.insert row }

def updatePermission (s : Store) (row : Permission) : Except Fault (Permission × Store) :=
  s.call <|
    match s.permissions.get? row.id with
    | none => .error (.notFound .permission row.id)
    | some stored => do
      checkVersion .permission row.id row.version stored.version
      let updated := { row with version := nextVersion stored.version }
      .ok (updated, { s with permissions := s.permissions.insert updated })

def insertResource (s : Store) (row : Resource) : Except Fault Store :=
  s.read { s with resources := s.resources.insert row }

def insertAction (s : Store) (row : Action) : Except Fault Store :=
  s.read { s with actions := s.actions.insert row }

def insertRolePermission (s : Store) (row : RolePermission) : Except Fault Store :=
  s.read { s with rolePermissions := s.rolePermissions ++ [row] }

def deactivateRolePermission (s : Store) (role permission : String) :
    Except Fault (Nat × Store) :=
  let chosen (l : RolePermission) := l.isActive && l.role == role && l.permission == permission
  let (count, rows) := switchOff chosen (fun l => { l with isActive := false }) s.rolePermissions
  s.read (count, { s with rolePermissions := rows })

def insertResourcePermission (s : Store) (row : ResourcePermission) : Except Fault Store :=
  s.read { s with resourcePermissions := s.resourcePermissions ++ [row] }

def switchOffGrant (id : String) : List ResourcePermission →
    Option (ResourcePermission × List ResourcePermission)
  | [] => none
  | p :: rest =>
    if p.id = id then
      let off := { p with isActive := false }
      some (off, off :: rest)
    else (switchOffGrant id rest).map fun (off, rest) => (off, p :: rest)

def deactivateResourcePermission (s : Store) (id : String) :
    Except Fault (ResourcePermission × Store) :=
  s.call <|
    match switchOffGrant id s.resourcePermissions with
    | none => .error (.notFound .resourcePermission id)
    | some (off, rows) => .ok (off, { s with resourcePermissions := rows })

def insertGroup (s : Store) (group : Group) : Except Fault Store := do
  group.validate
  s.read { s with groups := s.groups.insert group }

def insertMembership (s : Store) (row : Membership) : Except Fault Store :=
  s.read { s with memberships := s.memberships ++ [row] }

def deactivateMembership (s : Store) (group principal : String) : Except Fault (Nat × Store) :=
  let chosen (m : Membership) := m.isActive && m.group == group && m.principal == principal
  let (count, rows) := switchOff chosen (fun m => { m with isActive := false }) s.memberships
  s.read (count, { s with memberships := rows })

def insertGroupRole (s : Store) (row : GroupRole) : Except Fault Store :=
  s.read { s with groupRoles := s.groupRoles ++ [row] }

def deactivateGroupRole (s : Store) (group role : String) : Except Fault (Nat × Store) :=
  let chosen (g : GroupRole) := g.isActive && g.group == group && g.role == role
  let (count, rows) := switchOff chosen (fun g => { g with isActive := false }) s.groupRoles
  s.read (count, { s with groupRoles := rows })

def insertInheritance (s : Store) (edge : Inheritance) : Except Fault Store :=
  if edge.parent = edge.child then
    .error (.validation ("group " ++ edge.child ++ " cannot inherit from itself"))
  else s.read { s with inheritance := s.inheritance ++ [edge] }

def insertOrganization (s : Store) (row : Organization) : Except Fault Store :=
  s.read { s with organizations := s.organizations.insert row }

def insertBinding (s : Store) (row : Binding) : Except Fault Store :=
  s.read { s with bindings := s.bindings.insert row }

def updateBinding (s : Store) (row : Binding) : Except Fault (Binding × Store) :=
  s.call <|
    match s.bindings.get? row.id with
    | none => .error (.notFound .binding row.id)
    | some stored => do
      checkVersion .binding row.id row.version stored.version
      let updated := { row with version := nextVersion stored.version }
      .ok (updated, { s with bindings := s.bindings.insert updated })

def deleteBinding (s : Store) (id : String) (version : Nat) : Except Fault (Binding × Store) :=
  s.call <|
    match s.bindings.get? id with
    | none => .error (.notFound .binding id)
    | some stored => do
      checkVersion .binding id version stored.version
      let deleted := { stored with isActive := false, version := nextVersion stored.version }
      .ok (deleted, { s with bindings := s.bindings.insert deleted })

def putAttribute (s : Store) (row : Attribute) : Except Fault Store :=
  s.read { s with attributes := s.attributes.filter (fun a => !a.sameSlot row) ++ [row] }

end AccessControl.Store
