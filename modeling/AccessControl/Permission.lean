import AccessControl.Json.Record

/-!
Grants, in two models. A named permission points at a resource and at an action and is linked to
roles; a resource permission grants a role one action on a resource, or on every resource of a type.
-/

namespace AccessControl

structure Resource where
  id : String
  type : String
  object : Option String
deriving DecidableEq, Repr, Inhabited

namespace Resource

def denotes (r : Resource) (type id : String) : Bool :=
  r.type == type && r.object.all (· == id)

def json (r : Resource) : Json :=
  .object ([("id", .string r.id), ("resource_type", .string r.type)] ++
    Json.field? "object_id" .string r.object)

def ofDocument? (d : Document) : Option Resource := do
  let r ← d.record? ["id", "resource_type", "object_id"]
  pure {
    id := ← r.required "id" Document.text?
    type := ← r.required "resource_type" Document.text?
    object := ← r.optional "object_id" Document.text? }

end Resource

structure Action where
  id : String
  name : String
deriving DecidableEq, Repr, Inhabited

namespace Action

def json (a : Action) : Json :=
  .object [("id", .string a.id), ("name", .string a.name)]

def ofDocument? (d : Document) : Option Action := do
  let r ← d.record? ["id", "name"]
  pure {
    id := ← r.required "id" Document.text?
    name := ← r.required "name" Document.text? }

end Action

structure Permission where
  id : String
  name : String
  description : String
  resource : Option String
  action : Option String
  version : Nat
  isActive : Bool
deriving DecidableEq, Repr, Inhabited

namespace Permission

def on (id name : String) (resource : Resource) (action : Action) : Permission :=
  ⟨id, name, "", some resource.id, some action.id, 1, true⟩

def json (p : Permission) : Json :=
  .object ([("id", .string p.id), ("name", .string p.name),
      ("description", .string p.description)] ++
    Json.field? "resource_id" .string p.resource ++ Json.field? "action_id" .string p.action ++
    [("version", .nat p.version), ("is_active", .bool p.isActive)])

def ofDocument? (d : Document) : Option Permission := do
  let r ← d.record? ["id", "name", "description", "resource_id", "action_id", "version",
    "is_active"]
  pure {
    id := ← r.required "id" Document.text?
    name := ← r.required "name" Document.text?
    description := ← r.withDefault "description" Document.text? ""
    resource := ← r.optional "resource_id" Document.text?
    action := ← r.optional "action_id" Document.text?
    version := ← r.withDefault "version" Document.word? 1
    isActive := ← r.withDefault "is_active" Document.bool? true }

end Permission

structure RolePermission where
  id : String
  role : String
  permission : String
  isActive : Bool
deriving DecidableEq, Repr, Inhabited

namespace RolePermission

def link (id role permission : String) : RolePermission := ⟨id, role, permission, true⟩

def json (p : RolePermission) : Json :=
  .object [("id", .string p.id), ("role_id", .string p.role),
    ("permission_id", .string p.permission), ("is_active", .bool p.isActive)]

def ofDocument? (d : Document) : Option RolePermission := do
  let r ← d.record? ["id", "role_id", "permission_id", "is_active"]
  pure {
    id := ← r.required "id" Document.text?
    role := ← r.required "role_id" Document.text?
    permission := ← r.required "permission_id" Document.text?
    isActive := ← r.withDefault "is_active" Document.bool? true }

end RolePermission

structure ResourcePermission where
  id : String
  role : String
  type : String
  resource : String
  action : String
  isActive : Bool
deriving DecidableEq, Repr, Inhabited

namespace ResourcePermission

def wildcard : String := "*"

def typeLevel (id role type action : String) : ResourcePermission :=
  ⟨id, role, type, wildcard, action, true⟩

def isTypeLevel (p : ResourcePermission) : Bool :=
  p.resource.isEmpty || p.resource == wildcard

def covers (p : ResourcePermission) (type id action : String) : Bool :=
  p.isActive && p.type == type && p.action == action && (p.isTypeLevel || p.resource == id)

def json (p : ResourcePermission) : Json :=
  .object [("id", .string p.id), ("role_id", .string p.role), ("resource_type", .string p.type),
    ("resource_id", .string p.resource), ("action", .string p.action),
    ("is_active", .bool p.isActive)]

def ofDocument? (d : Document) : Option ResourcePermission := do
  let r ← d.record? ["id", "role_id", "resource_type", "resource_id", "action", "is_active"]
  pure {
    id := ← r.required "id" Document.text?
    role := ← r.required "role_id" Document.text?
    type := ← r.required "resource_type" Document.text?
    resource := ← r.withDefault "resource_id" Document.text? ""
    action := ← r.required "action" Document.text?
    isActive := ← r.withDefault "is_active" Document.bool? true }

end ResourcePermission

end AccessControl
