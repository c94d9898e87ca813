import AccessControl.Engine
import AccessControl.RoleGraph
import AccessControl.Store.Write

/-!
Administration: writes to the store, each followed by the invalidation of what it made stale. A new
parent is only given to a role when the chain through the role stays within the depth limit and
does not close; an inheritance edge only when it does not close a cycle.
-/

namespace AccessControl.Admin

variable {σ : Type} [CacheService σ]

def commit (e : Engine σ) (write : Except Fault (α × Store)) (changes : α → List Change) :
    Except Fault α × Engine σ :=
  match write with
  | .error fault => (.error fault, e)
  | .ok (row, store) =>
    (.ok row, (changes row).foldl (fun e c => (e.invalidate c).2) { e with store := store })

def giving (row : α) (write : Except Fault Store) : Except Fault (α × Store) :=
  write.map (row, ·)

def rolesWith (stored : List Role) (role : Role) : List Role :=
  if stored.any (·.id == role.id) then stored else stored ++ [{ role with parent := none }]

def checkEdgeIn (stored : List Role) (maxDepth : Nat) (role : Role) (parent : String) :
    Except Fault Unit :=
  if stored.any (fun r => r.id == parent && r.isLive) then
    let graph := RoleGraph.ofRoles (rolesWith stored role)
    if graph.wouldCreateCycle role.id parent then
      let depth := match graph.depthOf parent with
        | .ok depth => depth
        | .error _ => 0
      .error (.cycleOrDepth role.id (depth + 1))
    else
      match graph.chainDepthWithParent role.id parent with
      | .error (.circular id) => .error (.cycleOrDepth id (maxDepth + 1))
      | .error (.unknown id) => .error (.notFound .role id)
      | .ok depth =>
        if maxDepth < depth then .error (.cycleOrDepth role.id depth) else .ok ()
  else .error (.notFound .role parent)

def checkParentEdge (s : Store) (maxDepth : Nat) (role : Role) (parent : String) :
    Except Fault Unit := do
  checkEdgeIn (← s.read s.roles.rows) maxDepth role parent

def checkParent (s : Store) (maxDepth : Nat) (role : Role) : Except Fault Unit :=
  match role.parent with
  | some parent => checkParentEdge s maxDepth role parent
  | none => .ok ()

def storedRole (s : Store) (id : String) : Except Fault Role := do
  match ← s.read (s.role? id) with
  | some role => .ok role
  | none => .error (.notFound .role id)

def createRole (e : Engine σ) (role : Role) : Except Fault Role × Engine σ :=
  commit e
    (do
      role.validate
      checkParent e.store e.maxDepth role
      giving role (e.store.insertRole role))
    fun role => [.role role.id]

def updateRole (e : Engine σ) (role : Role) : Except Fault Role × Engine σ :=
  commit e
    (do
      let current ← storedRole e.store role.id
      if role.parent ≠ current.parent then checkParent e.store e.maxDepth role
      e.store.updateRole role)
    fun role => [.role role.id]

def setRoleParent (e : Engine σ) (id : String) (parent : Option String) (version : Nat) :
    Except Fault Role × Engine σ :=
  match storedRole e.store id with
  | .error fault => (.error fault, e)
  | .ok role => updateRole e { role with parent := parent, version := version }

def deleteRole (e : Engine σ) (id : String) (version : Nat) (now : Instant) :
    Except Fault Role × Engine σ :=
  commit e (e.store.deleteRole id version now) fun _ => [.role id]

def roleTree (e : Engine σ) : Except Fault (List RoleTree) :=
  e.store.read (RoleGraph.ofRoles e.store.roles.rows).tree

def assignRole (e : Engine σ) (row : UserRole) : Except Fault UserRole × Engine σ :=
  commit e (giving row (e.store.insertUserRole row)) fun row =>
    [.userRole row.principal row.role]

def revokeRole (e : Engine σ) (principal role : String) : Except Fault Nat × Engine σ :=
  commit e (e.store.deactivateUserRole principal role) fun _ => [.userRole principal role]

def createPermission (e : Engine σ) (row : Permission) : Except Fault Permission × Engine σ :=
  commit e (giving row (e.store.insertPermission row)) fun _ => []

def updatePermission (e : Engine σ) (row : Permission) : Except Fault Permission × Engine σ :=
  commit e (e.store.updatePermission row) fun row => [.permission row.id]

def linkPermission (e : Engine σ) (role permission : String) :
    Except Fault RolePermission × Engine σ :=
  let (id, e) := e.freshId
  let row := RolePermission.link id role permission
  commit e (giving row (e.store.insertRolePermission row)) fun _ =>
    [.rolePermission role permission]

def unlinkPermission (e : Engine σ) (role permission : String) : Except Fault Nat × Engine σ :=
  commit e (e.store.deactivateRolePermission role permission) fun _ =>
    [.rolePermission role permission]

def grantResource (e : Engine σ) (row : ResourcePermission) :
    Except Fault ResourcePermission × Engine σ :=
  commit e (giving row (e.store.insertResourcePermission row)) fun row =>
    [.resourcePermission row.role]

def revokeResource (e : Engine σ) (id : String) : Except Fault ResourcePermission × Engine σ :=
  commit e (e.store.deactivateResourcePermission id) fun row => [.resourcePermission row.role]

def createBinding (e : Engine σ) (row : Binding) : Except Fault Binding × Engine σ :=
  commit e (giving row (e.store.insertBinding row)) fun row => [.ofBinding row]

def updateBinding (e : Engine σ) (row : Binding) : Except Fault Binding × Engine σ :=
  let previous := (e.store.binding? row.id).toList.map Change.ofBinding
  commit e (e.store.updateBinding row) fun row => previous ++ [.ofBinding row]

def deleteBinding (e : Engine σ) (id : String) (version : Nat) :
    Except Fault Binding × Engine σ :=
  commit e (e.store.deleteBinding id version) fun row => [.ofBinding row]

def createGroup (e : Engine σ) (row : Group) : Except Fault Group × Engine σ :=
  commit e (giving row (e.store.insertGroup row)) fun _ => []

def assignGroupRole (e : Engine σ) (row : GroupRole) : Except Fault GroupRole × Engine σ :=
  commit e (giving row (e.store.insertGroupRole row)) fun row => [.groupRole row.group row.role]

def revokeGroupRole (e : Engine σ) (group role : String) : Except Fault Nat × Engine σ :=
  commit e (e.store.deactivateGroupRole group role) fun _ => [.groupRole group role]

def addMember (e : Engine σ) (row : Membership) : Except Fault Membership × Engine σ :=
  commit e (giving row (e.store.insertMembership row)) fun row =>
    [.membership row.group row.principal]

def removeMember (e : Engine σ) (group principal : String) : Except Fault Nat × Engine σ :=
  commit e (e.store.deactivateMembership group principal) fun _ => [.membership group principal]

def checkInheritance (s : Store) (maxDepth : Nat) (edge : Inheritance) : Except Fault Unit := do
  let below ← s.read (s.groupSubtree maxDepth edge.child)
  if below.contains edge.parent then
    .error (.validation ("group " ++ edge.parent ++ " already inherits from " ++ edge.child))

def addInheritance (e : Engine σ) (edge : Inheritance) : Except Fault Inheritance × Engine σ :=
  commit e
    (do
      checkInheritance e.store e.maxDepth edge
      giving edge (e.store.insertInheritance edge))
    fun edge => [.inheritance edge.parent edge.child]

def putAttribute (e : Engine σ) (row : Attribute) : Except Fault Attribute × Engine σ :=
  commit e (giving row (e.store.putAttribute row)) fun row => [.attributes row.subject]

end AccessControl.Admin
