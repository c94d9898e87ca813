import AccessControl.Fault
import AccessControl.TimeWindow

/-!
Roles form a forest through their parents; what a role's parent grants, the role grants too. A
role is global or belongs to one organization.
-/

namespace AccessControl

inductive RoleScope where
  | global
  | org
deriving DecidableEq, Repr, Inhabited

namespace RoleScope

def word : RoleScope → String
  | global => "global"
  | org => "org"

def words : List (String × RoleScope) := [("global", global), ("org", org)]

end RoleScope

structure Role where
  id : String
  name : String
  description : String
  scope : RoleScope
  organization : Option String
  parent : Option String
  isDefault : Bool
  version : Nat
  isActive : Bool
  deletedAt : Option Instant
deriving DecidableEq, Repr, Inhabited

namespace Role

def global (id name : String) : Role where
  id := id
  name := name
  description := ""
  scope := .global
  organization := none
  parent := none
  isDefault := false
  version := 1
  isActive := true
  deletedAt := none

def ofOrganization (id name organization : String) : Role :=
  { global id name with scope := .org, organization := some organization }

def isLive (r : Role) : Bool :=
  r.isActive && r.deletedAt.isNone

def visibleIn (r : Role) (organization : String) : Bool :=
  match r.scope with
  | .global => true
  | .org => r.organization == some organization

def visibleTo (r : Role) (organization : Option String) : Bool :=
  organization.all r.visibleIn

def validate (r : Role) : Except Fault Unit :=
  if r.id.isEmpty then .error (.validation "role id is required")
  else if Text.blank r.name then .error (.validation "role name is required")
  else if r.scope = .org ∧ r.organization = none then
    .error (.validation ("org-scoped role " ++ r.id ++ " must have an organization"))
  else if r.scope = .global ∧ r.organization ≠ none then
    .error (.validation ("global role " ++ r.id ++ " cannot have an organization"))
  else if r.parent = some r.id then
    .error (.validation ("role " ++ r.id ++ " cannot be its own parent"))
  else .ok ()

def json (r : Role) : Json :=
  .object ([("id", .string r.id), ("name", .string r.name),
      ("description", .string r.description), ("scope", .string r.scope.word)] ++
    Json.field? "organization_id" .string r.organization ++
    Json.field? "parent_id" .string r.parent ++
    [("is_default", .bool r.isDefault), ("version", .nat r.version),
      ("is_active", .bool r.isActive)] ++
    Json.field? "deleted_at" Instant.json r.deletedAt)

def ofDocument? (d : Document) : Option Role := do
  let r ← d.record? ["id", "name", "description", "scope", "organization_id", "parent_id",
    "is_default", "version", "is_active", "deleted_at"]
  pure {
    id := ← r.required "id" Document.text?
    name := ← r.required "name" Document.text?
    description := ← r.withDefault "description" Document.text? ""
    scope := ← r.required "scope" (Document.choice? RoleScope.words)
    organization := ← r.optional "organization_id" Document.text?
    parent := ← r.optional "parent_id" Document.text?
    isDefault := ← r.withDefault "is_default" Document.bool? false
    version := ← r.withDefault "version" Document.word? 1
    isActive := ← r.withDefault "is_active" Document.bool? true
    deletedAt := ← r.optional "deleted_at" Instant.ofDocument? }

end Role

structure UserRole where
  id : String
  principal : String
  role : String
  sourceGroup : Option String
  window : TimeWindow
  isActive : Bool
deriving DecidableEq, Repr, Inhabited

namespace UserRole

def direct (id principal role : String) : UserRole :=
  ⟨id, principal, role, none, .unbounded, true⟩

def isEffective (u : UserRole) (t : Instant) : Bool :=
  u.isActive && u.window.contains t

def json (u : UserRole) : Json :=
  .object ([("id", .string u.id), ("principal_id", .string u.principal),
      ("role_id", .string u.role)] ++
    Json.field? "source_group_id" .string u.sourceGroup ++ u.window.fields ++
    [("is_active", .bool u.isActive)])

def ofDocument? (d : Document) : Option UserRole := do
  let r ← d.flatRecord? (["id", "principal_id", "role_id", "source_group_id", "is_active"] ++
    TimeWindow.fieldNames)
  pure {
    id := ← r.required "id" Document.text?
    principal := ← r.required "principal_id" Document.text?
    role := ← r.required "role_id" Document.text?
    sourceGroup := ← r.optional "source_group_id" Document.text?
    window := ← TimeWindow.ofRecord? r
    isActive := ← r.withDefault "is_active" Document.bool? true }

end UserRole

end AccessControl
