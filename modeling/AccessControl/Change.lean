import AccessControl.Binding

/-! Changes to the store that may make cached role sets and decisions stale. -/

namespace AccessControl

inductive Change where
  | role (role : String)
  | permission (permission : String)
  | rolePermission (role permission : String)
  | resourcePermission (role : String)
  | binding (subjectType : BindingSubject) (subject : String) (target : BindingTarget)
  | groupRole (group role : String)
  | membership (group principal : String)
  | inheritance (parent child : String)
  | userRole (principal role : String)
  | attributes (subject : String)
deriving DecidableEq, Repr, Inhabited

namespace Change

def ofBinding (b : Binding) : Change :=
  binding b.subjectType b.subject b.target

def kind : Change → String
  | role .. => "role_changed"
  | permission .. => "permission_changed"
  | rolePermission .. => "role_permission_changed"
  | resourcePermission .. => "resource_permission_changed"
  | binding .. => "binding_changed"
  | groupRole .. => "group_role_changed"
  | membership .. => "group_membership_changed"
  | inheritance .. => "group_inheritance_changed"
  | userRole .. => "user_role_changed"
  | attributes .. => "attribute_changed"

def fields : Change → List (String × Json)
  | role r => [("role_id", .string r)]
  | permission p => [("permission_id", .string p)]
  | rolePermission r p => [("role_id", .string r), ("permission_id", .string p)]
  | resourcePermission r => [("role_id", .string r)]
  | binding type subject target =>
    [("subject_type", .string type.word), ("subject_id", .string subject), ("target", target.json)]
  | groupRole g r => [("group_id", .string g), ("role_id", .string r)]
  | membership g p => [("group_id", .string g), ("principal_id", .string p)]
  | inheritance parent child =>
    [("parent_group_id", .string parent), ("child_group_id", .string child)]
  | userRole p r => [("principal_id", .string p), ("role_id", .string r)]
  | attributes subject => [("subject_id", .string subject)]

def json (c : Change) : Json :=
  .object (("event", .string c.kind) :: c.fields)

def one? (make : String → Change) (name : String) (d : Document) : Option Change := do
  let r ← d.record? [name]
  pure (make (← r.required name Document.text?))

def two? (make : String → String → Change) (first second : String) (d : Document) :
    Option Change := do
  let r ← d.record? [first, second]
  pure (make (← r.required first Document.text?) (← r.required second Document.text?))

def binding? (d : Document) : Option Change := do
  let r ← d.record? ["subject_type", "subject_id", "target"]
  let subjectType ← r.required "subject_type" (Document.choice? BindingSubject.words)
  let subject ← r.required "subject_id" Document.text?
  pure (binding subjectType subject (← r.required "target" BindingTarget.ofDocument?))

def readers : List (String × (Document → Option Change)) := [
  ("role_changed", one? role "role_id"),
  ("permission_changed", one? permission "permission_id"),
  ("role_permission_changed", two? rolePermission "role_id" "permission_id"),
  ("resource_permission_changed", one? resourcePermission "role_id"),
  ("binding_changed", binding?),
  ("group_role_changed", two? groupRole "group_id" "role_id"),
  ("group_membership_changed", two? membership "group_id" "principal_id"),
  ("group_inheritance_changed", two? inheritance "parent_group_id" "child_group_id"),
  ("user_role_changed", two? userRole "principal_id" "role_id"),
  ("attribute_changed", one? attributes "subject_id")]

def ofDocument? (d : Document) : Option Change := do
  let (kind, rest) ← d.tagged? "event"
  (← readers.lookup kind) rest

end Change

end AccessControl
