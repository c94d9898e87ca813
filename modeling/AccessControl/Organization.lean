import AccessControl.Json.Record

/-! Principals, who can be users or services, and the organizations that bound what they see. -/

namespace AccessControl

inductive PrincipalKind where
  | user
  | service
deriving DecidableEq, Repr, Inhabited

namespace PrincipalKind

def word : PrincipalKind → String
  | user => "user"
  | service => "service"

def words : List (String × PrincipalKind) := [("user", user), ("service", service)]

end PrincipalKind

structure Principal where
  id : String
  kind : PrincipalKind
  organization : Option String
  isActive : Bool
deriving DecidableEq, Repr, Inhabited

namespace Principal

def user (id : String) : Principal := ⟨id, .user, none, true⟩
def service (id : String) : Principal := ⟨id, .service, none, true⟩

def json (p : Principal) : Json :=
  .object ([("id", .string p.id), ("kind", .string p.kind.word)] ++
    Json.field? "organization_id" .string p.organization ++ [("is_active", .bool p.isActive)])

def ofDocument? (d : Document) : Option Principal := do
  let r ← d.record? ["id", "kind", "organization_id", "is_active"]
  pure {
    id := ← r.required "id" Document.text?
    kind := ← r.required "kind" (Document.choice? PrincipalKind.words)
    organization := ← r.optional "organization_id" Document.text?
    isActive := ← r.withDefault "is_active" Document.bool? true }

end Principal

structure Organization where
  id : String
  name : String
  parent : Option String
  isActive : Bool
deriving DecidableEq, Repr, Inhabited

namespace Organization

def root (id name : String) : Organization := ⟨id, name, none, true⟩
def childOf (parent : Organization) (id name : String) : Organization :=
  ⟨id, name, some parent.id, true⟩

def json (o : Organization) : Json :=
  .object ([("id", .string o.id), ("name", .string o.name)] ++
    Json.field? "parent_id" .string o.parent ++ [("is_active", .bool o.isActive)])

def ofDocument? (d : Document) : Option Organization := do
  let r ← d.record? ["id", "name", "parent_id", "is_active"]
  pure {
    id := ← r.required "id" Document.text?
    name := ← r.required "name" Document.text?
    parent := ← r.optional "parent_id" Document.text?
    isActive := ← r.withDefault "is_active" Document.bool? true }

end Organization

end AccessControl
