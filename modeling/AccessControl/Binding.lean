import AccessControl.Caveat

/-!
Bindings attach a role or one permission to a user, a service or a group, for resources of one type
or for one of them, under a caveat.
-/

namespace AccessControl

inductive BindingSubject where
  | user
  | group
  | service
deriving DecidableEq, Repr, Inhabited

namespace BindingSubject

def word : BindingSubject → String
  | user => "user"
  | group => "group"
  | service => "service"

def words : List (String × BindingSubject) :=
  [("user", user), ("group", group), ("service", service)]

end BindingSubject

inductive BindingTarget where
  | role (id : String)
  | permission (id : String)
deriving DecidableEq, Repr, Inhabited

namespace BindingTarget

def json : BindingTarget → Json
  | role id => .object [("type", .string "role"), ("id", .string id)]
  | permission id => .object [("type", .string "permission"), ("id", .string id)]

def kinds : List (String × (String → BindingTarget)) :=
  [("role", role), ("permission", permission)]

def ofDocument? (d : Document) : Option BindingTarget := do
  let r ← d.record? ["type", "id"]
  let kind ← r.required "type" (Document.choice? kinds)
  pure (kind (← r.required "id" Document.text?))

end BindingTarget

structure Binding where
  id : String
  subject : String
  subjectType : BindingSubject
  target : BindingTarget
  resourceType : String
  resource : Option String
  organization : String
  caveat : Option Caveat
  version : Nat
  createdBy : String
  isActive : Bool
deriving Repr, Inhabited

namespace Binding

def attach (id : String) (subjectType : BindingSubject) (subject : String) (target : BindingTarget)
    (resourceType organization : String) : Binding where
  id := id
  subject := subject
  subjectType := subjectType
  target := target
  resourceType := resourceType
  resource := none
  organization := organization
  caveat := none
  version := 1
  createdBy := ""
  isActive := true

def appliesTo (b : Binding) (type id : String) : Bool :=
  b.resourceType == type && b.resource.all (· == id)

def role? (b : Binding) : Option String :=
  match b.target with
  | .role id => some id
  | .permission _ => none

def json (b : Binding) : Json :=
  .object ([("id", .string b.id), ("subject_id", .string b.subject),
      ("subject_type", .string b.subjectType.word), ("target", b.target.json),
      ("resource_type", .string b.resourceType)] ++
    Json.field? "resource_id" .string b.resource ++
    [("organization_id", .string b.organization)] ++ Json.field? "caveat" Caveat.json b.caveat ++
    [("version", .nat b.version), ("created_by", .string b.createdBy),
      ("is_active", .bool b.isActive)])

def ofDocument? (d : Document) : Option Binding := do
  let r ← d.record? ["id", "subject_id", "subject_type", "target", "resource_type", "resource_id",
    "organization_id", "caveat", "version", "created_by", "is_active"]
  pure {
    id := ← r.required "id" Document.text?
    subject := ← r.required "subject_id" Document.text?
    subjectType := ← r.required "subject_type" (Document.choice? BindingSubject.words)
    target := ← r.required "target" BindingTarget.ofDocument?
    resourceType := ← r.required "resource_type" Document.text?
    resource := ← r.optional "resource_id" Document.text?
    organization := ← r.required "organization_id" Document.text?
    caveat := ← r.optional "caveat" Caveat.ofDocument?
    version := ← r.withDefault "version" Document.word? 1
    createdBy := ← r.withDefault "created_by" Document.text? ""
    isActive := ← r.withDefault "is_active" Document.bool? true }

end Binding

end AccessControl
