import AccessControl.Grant

/-! What is asked: whether a principal may do something to a resource. -/

namespace AccessControl

structure AccessRequest where
  principal : String
  type : String
  resource : String
  action : String
deriving DecidableEq, Repr, Inhabited

namespace AccessRequest

def missingField (r : AccessRequest) : Option String :=
  if Text.blank r.principal then some "principal_id"
  else if Text.blank r.type then some "resource_type"
  else if Text.blank r.action then some "action"
  else none

def grant (r : AccessRequest) : GrantRequest := ⟨r.type, r.resource, r.action⟩

def json (r : AccessRequest) : Json :=
  .object [("principal_id", .string r.principal), ("resource_type", .string r.type),
    ("resource_id", .string r.resource), ("action", .string r.action)]

def ofDocument? (d : Document) : Option AccessRequest := do
  let r ← d.record? ["principal_id", "resource_type", "resource_id", "action"]
  pure {
    principal := ← r.required "principal_id" Document.text?
    type := ← r.required "resource_type" Document.text?
    resource := ← r.withDefault "resource_id" Document.text? ""
    action := ← r.required "action" Document.text? }

end AccessRequest

structure ResourceCheck where
  type : String
  resource : String
  action : String
deriving DecidableEq, Repr, Inhabited

namespace ResourceCheck

def key (c : ResourceCheck) : String :=
  c.type ++ ":" ++ c.resource ++ ":" ++ c.action

def forPrincipal (c : ResourceCheck) (principal : String) : AccessRequest :=
  ⟨principal, c.type, c.resource, c.action⟩

def json (c : ResourceCheck) : Json :=
  .object [("resource_type", .string c.type), ("resource_id", .string c.resource),
    ("action", .string c.action)]

def ofDocument? (d : Document) : Option ResourceCheck := do
  let r ← d.record? ["resource_type", "resource_id", "action"]
  pure {
    type := ← r.required "resource_type" Document.text?
    resource := ← r.withDefault "resource_id" Document.text? ""
    action := ← r.required "action" Document.text? }

end ResourceCheck

end AccessControl
