import AccessControl.Attribute
import AccessControl.Binding
import AccessControl.Group
import AccessControl.Permission
import AccessControl.Table

/-!
The store: every row that a decision is drawn from, and the questions that are asked of it. Rows
with an id of their own are kept in tables, the others in the order they were added. While the store
is unavailable every call on it fails.
-/

namespace AccessControl

instance : Keyed Organization := ⟨Organization.id⟩
instance : Keyed Role := ⟨Role.id⟩
instance : Keyed Resource := ⟨Resource.id⟩
instance : Keyed Action := ⟨Action.id⟩
instance : Keyed Permission := ⟨Permission.id⟩
instance : Keyed Group := ⟨Group.id⟩
instance : Keyed Binding := ⟨Binding.id⟩

structure Store where
  organizations : Table Organization
  roles : Table Role
  userRoles : List UserRole
  resources : Table Resource
  actions : Table Action
  permissions : Table Permission
  rolePermissions : List RolePermission
  resourcePermissions : List ResourcePermission
  groups : Table Group
  memberships : List Membership
  inheritance : List Inheritance
  groupRoles : List GroupRole
  bindings : Table Binding
  attributes : List Attribute
  available : Bool
deriving Inhabited

namespace Store

def empty : Store where
  organizations := .empty
  roles := .empty
  userRoles := []
  resources := .empty
  actions := .empty
  permissions := .empty
  rolePermissions := []
  resourcePermissions := []
  groups := .empty
  memberships := []
  inheritance := []
  groupRoles := []
  bindings := .empty
  attributes := []
  available := true

def unavailable : Fault := .store "backend unavailable"

def call (s : Store) (answer : Except Fault α) : Except Fault α :=
  if s.available then answer else .error unavailable

def read (s : Store) (answer : α) : Except Fault α :=
  s.call (.ok answer)

theorem read_of_available {s : Store} (h : s.available = true) (answer : α) :
    s.read answer = .ok answer := by
  simp [read, call, h]

def role? (s : Store) (id : String) : Option Role := s.roles.get? id
def group? (s : Store) (id : String) : Option Group := s.groups.get? id
def permission? (s : Store) (id : String) : Option Permission := s.permissions.get? id
def resource? (s : Store) (id : String) : Option Resource := s.resources.get? id
def action? (s : Store) (id : String) : Option Action := s.actions.get? id
def binding? (s : Store) (id : String) : Option Binding := s.bindings.get? id
def organization? (s : Store) (id : String) : Option Organization := s.organizations.get? id

def defaultRoles (s : Store) (organization : String) : List Role :=
  s.roles.rows.filter fun r => r.isDefault && r.isLive && r.visibleIn organization

def userRolesOf (s : Store) (principal : String) : List UserRole :=
  s.userRoles.filter fun u => u.principal == principal

def membershipsOf (s : Store) (principal : String) : List Membership :=
  s.memberships.filter fun m => m.principal == principal

def membersOf (s : Store) (group : String) : List Membership :=
  s.memberships.filter fun m => m.group == group

def groupRolesOf (s : Store) (group : String) : List GroupRole :=
  s.groupRoles.filter fun g => g.group == group

def parentEdges (s : Store) (group : String) : List Inheritance :=
  s.inheritance.filter fun e => e.child == group

def childEdges (s : Store) (group : String) : List Inheritance :=
  s.inheritance.filter fun e => e.parent == group

def linksOfRole (s : Store) (role : String) : List RolePermission :=
  s.rolePermissions.filter fun l => l.role == role

def linksOfPermission (s : Store) (permission : String) : List RolePermission :=
  s.rolePermissions.filter fun l => l.permission == permission

def grantsOfRole (s : Store) (role : String) : List ResourcePermission :=
  s.resourcePermissions.filter fun p => p.role == role

def findGrant (s : Store) (roles : List String) (type id action : String) :
    Option ResourcePermission :=
  s.resourcePermissions.find? fun p => roles.contains p.role && p.covers type id action

def bindingsOfSubject (s : Store) (type : BindingSubject) (id : String) : List Binding :=
  s.bindings.rows.filter fun b => b.subjectType == type && b.subject == id

def bindingsOfTarget (s : Store) (target : BindingTarget) : List Binding :=
  s.bindings.rows.filter fun b => b.target == target

def attributesOf (s : Store) (subject : String) (type : AttributeSubject) : List Attribute :=
  s.attributes.filter fun a => a.subject == subject && a.subjectType == type

end Store

end AccessControl
