import AccessControl.Binding
import AccessControl.Role

/-!
The effective roles of a principal: those it holds in any case, each with the ways that lead to it,
and those that only grant through a binding whose caveat passes.
-/

namespace AccessControl

inductive Provenance where
  | direct
  | viaGroup (group : String)
  | viaOrganization (organization : String)
  | viaParent (child : String)
  | viaBinding (binding : String)
deriving DecidableEq, Repr, Inhabited

namespace Provenance

def text : Provenance → String
  | direct => "direct"
  | viaGroup group => "via-group:" ++ group
  | viaOrganization organization => "via-org:" ++ organization
  | viaParent child => "via-parent:" ++ child
  | viaBinding binding => "via-binding:" ++ binding

def json : Provenance → Json
  | direct => .object [("via", .string "direct")]
  | viaGroup group => .object [("via", .string "via_group"), ("group_id", .string group)]
  | viaOrganization organization =>
    .object [("via", .string "via_organization"), ("organization_id", .string organization)]
  | viaParent child => .object [("via", .string "via_parent"), ("child_role_id", .string child)]
  | viaBinding binding =>
    .object [("via", .string "via_binding"), ("binding_id", .string binding)]

def ofDocument? (d : Document) : Option Provenance := do
  let (kind, rest) ← d.tagged? "via"
  let named (name : String) (make : String → Provenance) : Option Provenance := do
    let r ← rest.record? [name]
    make <$> r.required name Document.text?
  if kind = "direct" then if rest.isBare then some direct else none
  else if kind = "via_group" then named "group_id" viaGroup
  else if kind = "via_organization" then named "organization_id" viaOrganization
  else if kind = "via_parent" then named "child_role_id" viaParent
  else if kind = "via_binding" then named "binding_id" viaBinding
  else none

end Provenance

structure EffectiveRole where
  role : Role
  provenance : List Provenance
  depth : Nat
deriving DecidableEq, Repr, Inhabited

namespace EffectiveRole

def json (r : EffectiveRole) : Json :=
  .object [("role", r.role.json), ("provenance", .array (r.provenance.map Provenance.json)),
    ("depth", .nat r.depth)]

def ofDocument? (d : Document) : Option EffectiveRole := do
  let r ← d.record? ["role", "provenance", "depth"]
  pure {
    role := ← r.required "role" Role.ofDocument?
    provenance := ← r.required "provenance" (Document.list? Provenance.ofDocument?)
    depth := ← r.required "depth" Document.word? }

end EffectiveRole

structure ConditionalGrant where
  binding : Binding
  roles : List EffectiveRole
deriving Repr, Inhabited

namespace ConditionalGrant

def json (g : ConditionalGrant) : Json :=
  .object [("binding", g.binding.json), ("roles", .array (g.roles.map EffectiveRole.json))]

def ofDocument? (d : Document) : Option ConditionalGrant := do
  let r ← d.record? ["binding", "roles"]
  pure {
    binding := ← r.required "binding" Binding.ofDocument?
    roles := ← r.required "roles" (Document.list? EffectiveRole.ofDocument?) }

end ConditionalGrant

structure EffectiveRoles where
  roles : List EffectiveRole
  conditional : List ConditionalGrant
  truncated : Bool
  validUntil : Option Instant
deriving Repr, Inhabited

namespace EffectiveRoles

def isEmpty (e : EffectiveRoles) : Bool :=
  e.roles.isEmpty && e.conditional.all fun g => g.roles.isEmpty

def all (e : EffectiveRoles) : List EffectiveRole :=
  e.roles ++ e.conditional.flatMap (·.roles)

def get? (e : EffectiveRoles) (role : String) : Option EffectiveRole :=
  e.all.find? fun r => r.role.id == role

def contains (e : EffectiveRoles) (role : String) : Bool :=
  e.all.any fun r => r.role.id == role

def ids (e : EffectiveRoles) : List String :=
  e.roles.map (·.role.id)

def json (e : EffectiveRoles) : Json :=
  .object ([("roles", .array (e.roles.map EffectiveRole.json)),
      ("conditional", .array (e.conditional.map ConditionalGrant.json)),
      ("truncated", .bool e.truncated)] ++
    Json.field? "valid_until" Instant.json e.validUntil)

def ofDocument? (d : Document) : Option EffectiveRoles := do
  let r ← d.record? ["roles", "conditional", "truncated", "valid_until"]
  pure {
    roles := ← r.required "roles" (Document.list? EffectiveRole.ofDocument?)
    conditional := ← r.required "conditional" (Document.list? ConditionalGrant.ofDocument?)
    truncated := ← r.required "truncated" Document.bool?
    validUntil := ← r.optional "valid_until" Instant.ofDocument? }

def ofText? (s : String) : Option EffectiveRoles :=
  (Document.ofText? s).bind ofDocument?

end EffectiveRoles

end AccessControl
