import AccessControl.Organization
import AccessControl.Role

/-!
Groups of principals inside one organization. A group keeps the path of ids from its root down to
itself, each after a slash; membership, inheritance between groups and the roles of groups are rows
of their own, each with its window.
-/

namespace AccessControl

structure Group where
  id : String
  name : String
  organization : String
  parent : Option String
  depth : Nat
  path : String
  isActive : Bool
deriving DecidableEq, Repr, Inhabited

namespace Group

def deepest : Nat := 8

def root (id name organization : String) : Group :=
  ⟨id, name, organization, none, 0, "/" ++ id, true⟩

def childOf (parent : Group) (id name : String) : Except Fault Group :=
  let depth := parent.depth + 1
  if deepest < depth then
    .error (.validation ("group hierarchy depth " ++ toString depth ++ " exceeds maximum " ++
      toString deepest))
  else
    .ok ⟨id, name, parent.organization, some parent.id, depth, parent.path ++ "/" ++ id, true⟩

def validate (g : Group) : Except Fault Unit :=
  if deepest < g.depth then
    .error (.validation ("group " ++ g.id ++ " depth " ++ toString g.depth ++
      " exceeds maximum " ++ toString deepest))
  else if (g.depth == 0) != g.parent.isNone then
    .error (.validation ("group " ++ g.id ++
      " must have a parent exactly when its depth is non-zero"))
  else .ok ()

def contains (g other : Group) : Bool :=
  other.path == g.path || (g.path ++ "/").toList.isPrefixOf other.path.toList

def json (g : Group) : Json :=
  .object ([("id", .string g.id), ("name", .string g.name),
      ("organization_id", .string g.organization)] ++
    Json.field? "parent_id" .string g.parent ++
    [("hierarchy_depth", .nat g.depth), ("hierarchy_path", .string g.path),
      ("is_active", .bool g.isActive)])

def ofDocument? (d : Document) : Option Group := do
  let r ← d.record? ["id", "name", "organization_id", "parent_id", "hierarchy_depth",
    "hierarchy_path", "is_active"]
  pure {
    id := ← r.required "id" Document.text?
    name := ← r.required "name" Document.text?
    organization := ← r.required "organization_id" Document.text?
    parent := ← r.optional "parent_id" Document.text?
    depth := ← r.withDefault "hierarchy_depth" (Document.natBelow? 256) 0
    path := ← r.withDefault "hierarchy_path" Document.text? ""
    isActive := ← r.withDefault "is_active" Document.bool? true }

end Group

structure Membership where
  id : String
  group : String
  principal : String
  principalKind : PrincipalKind
  window : TimeWindow
  isActive : Bool
  addedBy : String
deriving DecidableEq, Repr, Inhabited

namespace Membership

def ofUser (id group principal : String) : Membership :=
  ⟨id, group, principal, .user, .unbounded, true, ""⟩

def isEffective (m : Membership) (t : Instant) : Bool :=
  m.isActive && m.window.contains t

def json (m : Membership) : Json :=
  .object ([("id", .string m.id), ("group_id", .string m.group),
      ("principal_id", .string m.principal), ("principal_kind", .string m.principalKind.word)] ++
    m.window.fields ++ [("is_active", .bool m.isActive), ("added_by", .string m.addedBy)])

def ofDocument? (d : Document) : Option Membership := do
  let r ← d.flatRecord? (["id", "group_id", "principal_id", "principal_kind", "is_active",
    "added_by"] ++ TimeWindow.fieldNames)
  pure {
    id := ← r.required "id" Document.text?
    group := ← r.required "group_id" Document.text?
    principal := ← r.required "principal_id" Document.text?
    principalKind := ← r.required "principal_kind" (Document.choice? PrincipalKind.words)
    window := ← TimeWindow.ofRecord? r
    isActive := ← r.withDefault "is_active" Document.bool? true
    addedBy := ← r.withDefault "added_by" Document.text? "" }

end Membership

structure Inheritance where
  id : String
  parent : String
  child : String
  window : TimeWindow
  isActive : Bool
deriving DecidableEq, Repr, Inhabited

namespace Inheritance

def between (id parent child : String) : Inheritance :=
  ⟨id, parent, child, .unbounded, true⟩

def isEffective (e : Inheritance) (t : Instant) : Bool :=
  e.isActive && e.window.contains t

def json (e : Inheritance) : Json :=
  .object ([("id", .string e.id), ("parent_group_id", .string e.parent),
      ("child_group_id", .string e.child)] ++ e.window.fields ++ [("is_active", .bool e.isActive)])

def ofDocument? (d : Document) : Option Inheritance := do
  let r ← d.flatRecord? (["id", "parent_group_id", "child_group_id", "is_active"] ++
    TimeWindow.fieldNames)
  pure {
    id := ← r.required "id" Document.text?
    parent := ← r.required "parent_group_id" Document.text?
    child := ← r.required "child_group_id" Document.text?
    window := ← TimeWindow.ofRecord? r
    isActive := ← r.withDefault "is_active" Document.bool? true }

end Inheritance

structure GroupRole where
  id : String
  group : String
  role : String
  organization : String
  assignedBy : String
  window : TimeWindow
  isActive : Bool
deriving DecidableEq, Repr, Inhabited

namespace GroupRole

def ofGroup (id : String) (group : Group) (role : String) : GroupRole :=
  ⟨id, group.id, role, group.organization, "", .unbounded, true⟩

def isEffective (g : GroupRole) (t : Instant) : Bool :=
  g.isActive && g.window.contains t

def json (g : GroupRole) : Json :=
  .object ([("id", .string g.id), ("group_id", .string g.group), ("role_id", .string g.role),
      ("organization_id", .string g.organization), ("assigned_by", .string g.assignedBy)] ++
    g.window.fields ++ [("is_active", .bool g.isActive)])

def ofDocument? (d : Document) : Option GroupRole := do
  let r ← d.flatRecord? (["id", "group_id", "role_id", "organization_id", "assigned_by",
    "is_active"] ++ TimeWindow.fieldNames)
  pure {
    id := ← r.required "id" Document.text?
    group := ← r.required "group_id" Document.text?
    role := ← r.required "role_id" Document.text?
    organization := ← r.required "organization_id" Document.text?
    assignedBy := ← r.withDefault "assigned_by" Document.text? ""
    window := ← TimeWindow.ofRecord? r
    isActive := ← r.withDefault "is_active" Document.bool? true }

end GroupRole

end AccessControl
