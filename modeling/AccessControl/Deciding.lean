import AccessControl.CaveatCheck
import AccessControl.Decision

/-!
Deciding a request from the effective roles of its principal. Roles that are held in any case come
first, each model of grants in its turn; then the bindings by id, those whose scope holds the
resource and whose caveat passes. A decision says how it was arrived at, step by step.
-/

namespace AccessControl

structure Search (α : Type) where
  found : Option α
  trace : List String

namespace Store

def searchModels (s : Store) (roles : List Role) (request : GrantRequest) :
    List GrantModel → List String → Except Fault (Search GrantMatch)
  | [], trace => .ok ⟨none, trace⟩
  | model :: rest, trace => do
    match ← s.matchRoles model roles request with
    | some m => .ok ⟨some m, trace ++ [model.word ++ ": matched role " ++ m.roleName]⟩
    | none => s.searchModels roles request rest (trace ++ [model.word ++ ": no match"])

def searchRoles (s : Store) (models : List GrantModel) (roles : List EffectiveRole)
    (request : GrantRequest) (trace : List String) : Except Fault (Search GrantMatch) :=
  if roles.isEmpty then .ok ⟨none, trace⟩
  else s.searchModels (roles.map (·.role)) request models trace

def searchBinding (s : Store) (models : List GrantModel) (g : ConditionalGrant)
    (request : GrantRequest) (ctx : Context) (id : String) (trace : List String) :
    Except Fault (Search Decision) :=
  match g.binding.target with
  | .role _ => do
    let search ← s.searchRoles models g.roles request trace
    .ok ⟨search.found.map fun m => .allow id m ctx, search.trace⟩
  | .permission permission => do
    let about := "binding " ++ g.binding.id ++ ": bound permission " ++ permission
    if ← s.read (s.permissionIdCovers permission request) then
      .ok ⟨some (.allowBoundPermission id g.binding.id permission ctx),
        trace ++ [about ++ " matched"]⟩
    else .ok ⟨none, trace ++ [about ++ " does not cover the request"]⟩

end Store

structure Rejections where
  trace : List String
  failures : List String
  notBefore : Option Instant

namespace Rejections

def startsLater (b : Binding) (now : Instant) : Option Instant :=
  (b.caveat.bind (·.window)).bind fun w => w.startsAt.filter fun s => now < s

def outOfScope (r : Rejections) (b : Binding) : Rejections :=
  { r with trace := r.trace ++ ["binding " ++ b.id ++ ": resource out of scope"] }

def caveatFailed (r : Rejections) (b : Binding) (reason : String) (now : Instant) : Rejections where
  trace := r.trace ++ ["binding " ++ b.id ++ ": " ++ reason]
  failures := r.failures ++ [reason]
  notBefore := earliest r.notBefore (startsLater b now)

end Rejections

namespace Store

def decideBindings (s : Store) (models : List GrantModel) (roles : EffectiveRoles)
    (request : AccessRequest) (ctx : Context) (id : String) :
    List ConditionalGrant → Rejections → Except Fault (Decision ⊕ Rejections)
  | [], r => .ok (.inr r)
  | g :: rest, r =>
    if g.binding.appliesTo request.type request.resource then do
      let outcome ← s.checkCaveat g.binding request.principal ctx
      if outcome.passed then
        let search ← s.searchBinding models g request.grant ctx id r.trace
        match search.found with
        | some d =>
          let bound := earliest
            (earliest (g.binding.caveat.bind (·.endsAt)) outcome.validUntil) roles.validUntil
          .ok (.inl ((((d.throughBinding g.binding.id outcome.columnGroups).holdingUntil bound
            ).withRoles roles).withTrace search.trace))
        | none =>
          s.decideBindings models roles request ctx id rest { r with trace := search.trace }
      else
        s.decideBindings models roles request ctx id rest
          (r.caveatFailed g.binding outcome.reason ctx.now)
    else s.decideBindings models roles request ctx id rest (r.outOfScope g.binding)

def resolvedText (roles : EffectiveRoles) : String :=
  "resolved " ++ toString roles.roles.length ++ " roles, " ++
    toString roles.conditional.length ++ " conditional grants" ++
    (if roles.truncated then " (truncated)" else "")

def noMatchText (request : AccessRequest) (failures : List String) : String :=
  "no matching permission for " ++ request.action ++ " on " ++ request.type ++ ":" ++
    request.resource ++
    (if failures.isEmpty then "" else " (" ++ "; ".intercalate failures ++ ")")

def decide (s : Store) (models : List GrantModel) (roles : EffectiveRoles)
    (request : AccessRequest) (ctx : Context) (id : String) : Except Fault Decision :=
  let trace := [resolvedText roles]
  if roles.isEmpty then
    .ok (((Decision.deny id "no roles assigned" ctx).withTrace trace).holdingUntil
      roles.validUntil)
  else do
    let search ← s.searchRoles models roles.roles request.grant trace
    match search.found with
    | some m =>
      .ok ((((Decision.allow id m ctx).withRoles roles).withTrace search.trace).holdingUntil
        roles.validUntil)
    | none =>
      match ← s.decideBindings models roles request ctx id roles.conditional
        ⟨search.trace, [], none⟩ with
      | .inl d => .ok d
      | .inr r =>
        .ok ((((Decision.deny id (noMatchText request r.failures) ctx).withRoles roles).withTrace
          r.trace).holdingUntil (earliest r.notBefore roles.validUntil))

end Store

end AccessControl
