import AccessControl.Resolution

/-!
Matching: which of some roles grants a request. There are two models of grants. A named permission
has to be linked to the role, and what it points at has to exist; a direct grant is a row of the
role's own. No part of a request is a pattern.
-/

namespace AccessControl

structure GrantRequest where
  type : String
  id : String
  action : String
deriving DecidableEq, Repr, Inhabited

inductive GrantModel where
  | named
  | direct
deriving DecidableEq, Repr, Inhabited

namespace GrantModel

def word : GrantModel → String
  | named => "named_permission"
  | direct => "direct_resource_grant"

def words : List (String × GrantModel) :=
  [("named_permission", named), ("direct_resource_grant", direct)]

def text : GrantModel → String
  | named => "named permission"
  | direct => "direct resource grant"

end GrantModel

structure GrantMatch where
  role : String
  roleName : String
  model : GrantModel
  via : String
deriving DecidableEq, Repr, Inhabited

namespace GrantMatch

def named (role : Role) : GrantMatch :=
  ⟨role.id, role.name, .named, "role:" ++ role.name ++ " (" ++ GrantModel.named.text ++ ")"⟩

def direct (role : Role) : GrantMatch :=
  ⟨role.id, role.name, .direct, GrantModel.direct.text⟩

def json (m : GrantMatch) : Json :=
  .object [("role_id", .string m.role), ("role_name", .string m.roleName),
    ("model", .string m.model.word), ("matched_via", .string m.via)]

def ofDocument? (d : Document) : Option GrantMatch := do
  let r ← d.record? ["role_id", "role_name", "model", "matched_via"]
  pure {
    role := ← r.required "role_id" Document.text?
    roleName := ← r.required "role_name" Document.text?
    model := ← r.required "model" (Document.choice? GrantModel.words)
    via := ← r.required "matched_via" Document.text? }

end GrantMatch

namespace Store

def permissionCovers (s : Store) (p : Permission) (request : GrantRequest) : Bool :=
  p.isActive &&
    match p.resource, p.action with
    | some resource, some action =>
      (s.action? action).any (·.name == request.action) &&
        (s.resource? resource).any (·.denotes request.type request.id)
    | _, _ => false

def permissionIdCovers (s : Store) (permission : String) (request : GrantRequest) : Bool :=
  (s.permission? permission).any (s.permissionCovers · request)

def checkPermission (s : Store) (p : Permission) (request : GrantRequest) : Except Fault Bool :=
  if p.isActive && p.resource.isSome && p.action.isSome then s.read (s.permissionCovers p request)
  else .ok false

def grantsNamed (s : Store) (request : GrantRequest) (role : Role) : Bool :=
  (s.linksOfRole role.id).any fun l => l.isActive && s.permissionIdCovers l.permission request

def matchNamed (s : Store) (roles : List Role) (request : GrantRequest) : Option GrantMatch :=
  (roles.find? (s.grantsNamed request)).map GrantMatch.named

def hasGrant (s : Store) (roles : List String) (request : GrantRequest) : Bool :=
  (s.findGrant roles request.type request.id request.action).isSome

/-- The role of the first stored grant for the request that one of the roles has. If the grant cannot
be put down to one of them, it is put down to the first. -/
def matchDirect (s : Store) (roles : List Role) (request : GrantRequest) : Option GrantMatch :=
  let ids := roles.map (·.id)
  if s.hasGrant ids request then
    let grant := s.findGrant ids request.type request.id request.action
    let role := grant.bind fun p => roles.find? (·.id == p.role)
    (role.or roles.head?).map .direct
  else none

def matchGrant (s : Store) (model : GrantModel) : List Role → GrantRequest → Option GrantMatch :=
  match model with
  | .named => s.matchNamed
  | .direct => s.matchDirect

def matchRoles (s : Store) (model : GrantModel) (roles : List Role) (request : GrantRequest) :
    Except Fault (Option GrantMatch) :=
  if roles.isEmpty then .ok none else s.read (s.matchGrant model roles request)

end Store

end AccessControl
