import AccessControl.Audit
import AccessControl.Config
import AccessControl.Deciding
import AccessControl.IdSupply
import AccessControl.Metrics
import AccessControl.Staleness

/-!
The decision engine. A request is checked for missing parts, looked up in the decision cache,
decided from the principal's effective roles if it is not there, and then cached, audited and
counted. A store that fails makes an error, never a denial. Every function gives its answer and the
engine after it.
-/

namespace AccessControl

structure Engine (σ : Type) where
  config : Config
  models : List GrantModel
  store : Store
  cache : Option σ
  audit : Option AuditSink
  metrics : Option Metrics
  ids : IdSupply
  elapsed : Duration

namespace Engine

def build (config : Config) (store : Store) (ids : IdSupply) :
    Except Fault (Engine MemoryCache) := do
  config.validate
  .ok {
    config := config
    models := [.named, .direct]
    store := store
    cache := if config.cache.enabled then some (.ofCapacity config.cache.capacity) else none
    audit := if config.audit.enabled then some (.log (.ofCapacity config.audit.capacity)) else none
    metrics := if config.metrics.enabled then some .start else none
    ids := ids
    elapsed := .zero }

def withCache {σ τ : Type} (e : Engine σ) (cache : Option τ) : Engine τ where
  config := e.config
  models := e.models
  store := e.store
  cache := cache
  audit := e.audit
  metrics := e.metrics
  ids := e.ids
  elapsed := e.elapsed

def maxDepth {σ : Type} (e : Engine σ) : Nat := e.config.hierarchy.maxDepth

def lifetimes {σ : Type} (e : Engine σ) : Lifetimes := e.config.cache.lifetimes

def count {σ : Type} (e : Engine σ) (f : Metrics → Metrics) : Engine σ :=
  { e with metrics := e.metrics.map f }

def freshId {σ : Type} (e : Engine σ) : String × Engine σ :=
  let (id, ids) := e.ids.draw
  (id, { e with ids := ids })

variable {σ : Type} [CacheService σ]

def cachedRoles (e : Engine σ) (principal : String) (ctx : Context) :
    Option EffectiveRoles × Engine σ :=
  match e.cache with
  | none => (none, e)
  | some c =>
    let (roles, c) := EvaluationCache.getRoles c principal ctx
    (roles, { e with cache := some c })

def keepRoles (e : Engine σ) (principal : String) (ctx : Context) (roles : EffectiveRoles) :
    Engine σ :=
  { e with cache := e.cache.map fun c =>
      EvaluationCache.putRoles e.lifetimes.roles c principal ctx roles }

def cachedDecision (e : Engine σ) (key : String) (now : Instant) : Option Decision × Engine σ :=
  match e.cache with
  | none => (none, e)
  | some c =>
    let (d, c) := EvaluationCache.getDecision c key now
    let e := { e with cache := some c }
    match d with
    | some d => (some { d with cacheHit := true }, e.count Metrics.countCacheHit)
    | none => (none, e.count Metrics.countCacheMiss)

def keepDecision (e : Engine σ) (key : String) (d : Decision) : Engine σ :=
  { e with cache := e.cache.map fun c =>
      EvaluationCache.putDecision e.lifetimes.decisions c key d }

def effectiveRoles (e : Engine σ) (principal : String) (ctx : Context) :
    Except Fault EffectiveRoles × Engine σ :=
  match e.cachedRoles principal ctx with
  | (some roles, e) => (.ok roles, e)
  | (none, e) =>
    match e.store.read (e.store.effectiveRoles e.maxDepth principal ctx) with
    | .error fault => (.error fault, e)
    | .ok roles => (.ok roles, e.keepRoles principal ctx roles)

def decide (e : Engine σ) (request : AccessRequest) (ctx : Context) :
    Except Fault Decision × Engine σ :=
  match e.effectiveRoles request.principal ctx with
  | (.error fault, e) => (.error fault, e)
  | (.ok roles, e) =>
    let (id, e) := e.freshId
    (e.store.decide e.models roles request ctx id, e)

def record (e : Engine σ) (event : AuditEvent) : Engine σ :=
  { e with audit := e.audit.map fun sink => (sink.accept event).2 }

def finish (e : Engine σ) (request : AccessRequest) (ctx : Context) (d : Decision)
    (key : Option String) : Decision × Engine σ :=
  let d := { d with duration := e.elapsed }
  let e := e.count fun m => (m.sample d.duration).countDecision d.allowed d.binding.isSome
  let e := match key with
    | some key => e.keepDecision key d
    | none => e
  (d, e.record (.ofDecision request ctx.organization d))

def refuse (e : Engine σ) (request : AccessRequest) (ctx : Context) (field : String) :
    Decision × Engine σ :=
  let (id, e) := (e.count Metrics.countValidationDenial).freshId
  let d := (Decision.deny id ("validation failed: " ++ field ++ " is required") ctx).withTrace
    ["validation: " ++ field ++ " is required"]
  e.finish request ctx d none

def evaluate (e : Engine σ) (request : AccessRequest) (ctx : Context) :
    Except Fault Decision × Engine σ :=
  match request.missingField with
  | some field =>
    let (d, e) := e.refuse request ctx field
    (.ok d, e)
  | none =>
    let key := CacheKey.decision request ctx
    match e.cachedDecision key ctx.now with
    | (some d, e) =>
      let (d, e) := e.finish request ctx d none
      (.ok d, e)
    | (none, e) =>
      match e.decide request ctx with
      | (.error fault, e) => (.error fault, e.count Metrics.countError)
      | (.ok d, e) =>
        let (d, e) := e.finish request ctx d (some key)
        (.ok d, e)

def evaluateInto (principal : String) (ctx : Context) (acc : BulkDecision × Engine σ)
    (check : ResourceCheck) : BulkDecision × Engine σ :=
  match acc.2.evaluate (check.forPrincipal principal) ctx with
  | (.ok d, e) => (acc.1.file check d, e)
  | (.error _, e) =>
    let (id, e) := e.freshId
    (acc.1.file check (.deny id "evaluation error" ctx), e)

def evaluateBulk (e : Engine σ) (principal : String) (checks : List ResourceCheck)
    (ctx : Context) : BulkDecision × Engine σ :=
  checks.foldl (evaluateInto principal ctx) (.empty principal, e)

def allowedActions (e : Engine σ) (principal type resource : String) (ctx : Context) :
    List String → Except Fault (List String) × Engine σ
  | [] => (.ok [], e)
  | action :: rest =>
    match e.evaluate ⟨principal, type, resource, action⟩ ctx with
    | (.error fault, e) => (.error fault, e)
    | (.ok d, e) =>
      let (allowed, e) := e.allowedActions principal type resource ctx rest
      (allowed.map fun actions => if d.allowed then action :: actions else actions, e)

def hasRole (e : Engine σ) (principal name : String) (ctx : Context) :
    Except Fault Bool × Engine σ :=
  let (roles, e) := e.effectiveRoles principal ctx
  (roles.map fun r => r.roles.any (·.role.name == name), e)

/-- Drops what a change made stale. Where the store cannot be asked for all of it, nothing counts as
dropped. -/
def dropStale (store : Store) (c : σ) (parts : StaleSet) : Nat × σ :=
  let (n, c) := Stale.dropAll c parts.known
  match parts.asked with
  | none => (n, c)
  | some items =>
    match store.read items with
    | .error _ => (0, c)
    | .ok items =>
      let (m, c) := Stale.dropAll c items
      (n + m, c)

def invalidate (e : Engine σ) (change : Change) : Nat × Engine σ :=
  match e.cache with
  | none => (0, e)
  | some c =>
    let (removed, c) := dropStale e.store c (e.store.stale e.maxDepth change)
    (removed, { e with cache := some c }.count (Metrics.countInvalidated · removed))

end Engine

end AccessControl
