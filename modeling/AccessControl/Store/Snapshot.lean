import AccessControl.Store

/-!
Snapshots: all rows of a store as plain lists, for files and fixtures. A store is built from a
snapshot only when all its roles and groups are valid; of two rows with one id the later one stays.
-/

namespace AccessControl

structure Snapshot where
  organizations : List Organization
  roles : List Role
  userRoles : List UserRole
  resources : List Resource
  actions : List Action
  permissions : List Permission
  rolePermissions : List RolePermission
  resourcePermissions : List ResourcePermission
  groups : List Group
  memberships : List Membership
  inheritance : List Inheritance
  groupRoles : List GroupRole
  bindings : List Binding
  attributes : List Attribute
deriving Inhabited

namespace Snapshot

def json (s : Snapshot) : Json :=
  .object [
    ("organizations", .array (s.organizations.map Organization.json)),
    ("roles", .array (s.roles.map Role.json)),
    ("user_roles", .array (s.userRoles.map UserRole.json)),
    ("resources", .array (s.resources.map Resource.json)),
    ("actions", .array (s.actions.map Action.json)),
    ("permissions", .array (s.permissions.map Permission.json)),
    ("role_permissions", .array (s.rolePermissions.map RolePermission.json)),
    ("resource_permissions", .array (s.resourcePermissions.map ResourcePermission.json)),
    ("groups", .array (s.groups.map Group.json)),
    ("memberships", .array (s.memberships.map Membership.json)),
    ("inheritance", .array (s.inheritance.map Inheritance.json)),
    ("group_roles", .array (s.groupRoles.map GroupRole.json)),
    ("bindings", .array (s.bindings.map Binding.json)),
    ("attributes", .array (s.attributes.map Attribute.json))]

def ofDocument? (d : Document) : Option Snapshot := do
  let r ← d.record? ["organizations", "roles", "user_roles", "resources", "actions", "permissions",
    "role_permissions", "resource_permissions", "groups", "memberships", "inheritance",
    "group_roles", "bindings", "attributes"]
  pure {
    organizations := ← r.withDefault "organizations" (Document.list? Organization.ofDocument?) []
    roles := ← r.withDefault "roles" (Document.list? Role.ofDocument?) []
    userRoles := ← r.withDefault "user_roles" (Document.list? UserRole.ofDocument?) []
    resources := ← r.withDefault "resources" (Document.list? Resource.ofDocument?) []
    actions := ← r.withDefault "actions" (Document.list? Action.ofDocument?) []
    permissions := ← r.withDefault "permissions" (Document.list? Permission.ofDocument?) []
    rolePermissions :=
      ← r.withDefault "role_permissions" (Document.list? RolePermission.ofDocument?) []
    resourcePermissions :=
      ← r.withDefault "resource_permissions" (Document.list? ResourcePermission.ofDocument?) []
    groups := ← r.withDefault "groups" (Document.list? Group.ofDocument?) []
    memberships := ← r.withDefault "memberships" (Document.list? Membership.ofDocument?) []
    inheritance := ← r.withDefault "inheritance" (Document.list? Inheritance.ofDocument?) []
    groupRoles := ← r.withDefault "group_roles" (Document.list? GroupRole.ofDocument?) []
    bindings := ← r.withDefault "bindings" (Document.list? Binding.ofDocument?) []
    attributes := ← r.withDefault "attributes" (Document.list? Attribute.ofDocument?) [] }

end Snapshot

namespace Store

def checkAll (check : α → Except Fault Unit) : List α → Except Fault Unit
  | [] => .ok ()
  | x :: xs => do
    check x
    checkAll check xs

def ofSnapshot (s : Snapshot) : Except Fault Store := do
  checkAll Role.validate s.roles
  checkAll Group.validate s.groups
  .ok {
    organizations := .ofList s.organizations
    roles := .ofList s.roles
    userRoles := s.userRoles
    resources := .ofList s.resources
    actions := .ofList s.actions
    permissions := .ofList s.permissions
    rolePermissions := s.rolePermissions
    resourcePermissions := s.resourcePermissions
    groups := .ofList s.groups
    memberships := s.memberships
    inheritance := s.inheritance
    groupRoles := s.groupRoles
    bindings := .ofList s.bindings
    attributes := s.attributes
    available := true }

def snapshot (s : Store) : Snapshot where
  organizations := s.organizations.rows
  roles := s.roles.rows
  userRoles := s.userRoles
  resources := s.resources.rows
  actions := s.actions.rows
  permissions := s.permissions.rows
  rolePermissions := s.rolePermissions
  resourcePermissions := s.resourcePermissions
  groups := s.groups.rows
  memberships := s.memberships
  inheritance := s.inheritance
  groupRoles := s.groupRoles
  bindings := s.bindings.rows
  attributes := s.attributes

def ofText (text : String) : Except Fault Store :=
  match (Document.ofText? text).bind Snapshot.ofDocument? with
  | some s => ofSnapshot s
  | none => .error .malformed

end Store

end AccessControl
