import AccessControl.Cache.Keys
import AccessControl.Cache.Service
import AccessControl.Decision
import AccessControl.Text.Sorted

/-!
The evaluation cache keeps role sets and decisions in a cache service. For every role that a value
names a marker is written before the value, and a value whose markers are not all there is not used,
so that a role's values can be found and dropped when the role changes. A service that fails is never
noticed but as a miss. Each function gives its answer and the service after it.
-/

namespace AccessControl

structure Lifetimes where
  roles : Duration
  decisions : Duration
deriving DecidableEq, Repr, Inhabited

namespace Lifetimes

def default : Lifetimes := ⟨.ofSeconds 300, .ofSeconds 60⟩

def bounded (ttl : Duration) (validUntil : Option Instant) (t : Instant) : Option Duration :=
  match validUntil with
  | none => some ttl
  | some bound =>
    let left := bound.since t
    if 0 < left then some (ttl.min ⟨left.toNat⟩) else none

end Lifetimes

namespace EvaluationCache

variable {σ : Type} [CacheService σ]

def read (c : σ) (key : String) : Option String × σ :=
  match CacheService.get c key with
  | (.ok value, c) => (value, c)
  | (.error _, c) => (none, c)

def remove (c : σ) (key : String) : σ :=
  (CacheService.delete c key).2

def list (c : σ) (pattern : String) : List String × σ :=
  match CacheService.keys c pattern with
  | (.ok keys, c) => (keys, c)
  | (.error _, c) => ([], c)

def writeMarkers (c : σ) (key : String) (ttl : Duration) : List String → Bool × σ
  | [] => (true, c)
  | role :: roles =>
    match CacheService.set c (CacheKey.marker role key) "" ttl with
    | (.ok _, c) => writeMarkers c key ttl roles
    | (.error _, c) => (false, c)

def write (c : σ) (key value : String) (ttl : Duration) (roles : List String) : σ :=
  match writeMarkers c key ttl (Text.sortedDistinct roles) with
  | (true, c) => (CacheService.set c key value ttl).2
  | (false, c) => c

/-- Whether all markers of the key are there. The value is dropped when one is missing, and left
alone when the service cannot tell. -/
def markersIntact (c : σ) (key : String) : List String → Bool × σ
  | [] => (true, c)
  | role :: roles =>
    match CacheService.get c (CacheKey.marker role key) with
    | (.ok (some _), c) => markersIntact c key roles
    | (.ok none, c) => (false, remove c key)
    | (.error _, c) => (false, c)

structure Kept (α : Type) where
  decode : String → Option α
  validUntil : α → Option Instant
  roles : α → List String

def keptRoles : Kept EffectiveRoles :=
  ⟨EffectiveRoles.ofText?, (·.validUntil), fun e => e.all.map (·.role.id)⟩

def keptDecision : Kept Decision :=
  ⟨Decision.ofText?, (·.validUntil), (·.roleIds)⟩

def fetch (kept : Kept α) (c : σ) (key : String) (now : Instant) : Option α × σ :=
  match read c key with
  | (none, c) => (none, c)
  | (some text, c) =>
    match kept.decode text with
    | none => (none, remove c key)
    | some value =>
      if (kept.validUntil value).any (fun bound => bound ≤ now) then (none, c)
      else
        match markersIntact c key (Text.sortedDistinct (kept.roles value)) with
        | (true, c) => (some value, c)
        | (false, c) => (none, c)

def getRoles (c : σ) (principal : String) (ctx : Context) : Option EffectiveRoles × σ :=
  fetch keptRoles c (CacheKey.roles principal ctx) ctx.now

def putRoles (ttl : Duration) (c : σ) (principal : String) (ctx : Context) (e : EffectiveRoles) :
    σ :=
  match Lifetimes.bounded ttl e.validUntil ctx.now with
  | some ttl => write c (CacheKey.roles principal ctx) e.json.written ttl (keptRoles.roles e)
  | none => c

def getDecision (c : σ) (key : String) (now : Instant) : Option Decision × σ :=
  fetch keptDecision c key now

def putDecision (ttl : Duration) (c : σ) (key : String) (d : Decision) : σ :=
  match Lifetimes.bounded ttl d.validUntil d.evaluatedAt with
  | some ttl => write c key d.json.written ttl d.roleIds
  | none => c

def dropMarked (role : String) (acc : Nat × σ) (marker : String) : Nat × σ :=
  match CacheKey.markedBy? role marker with
  | some key => (acc.1 + 1, remove (remove acc.2 key) marker)
  | none => (acc.1, remove acc.2 marker)

def invalidateRole (c : σ) (role : String) : Nat × σ :=
  let (markers, c) := list c (CacheKey.markersOf role ++ "*")
  markers.foldl (dropMarked role) (0, c)

def removeMatching (c : σ) (pattern : String) : Nat × σ :=
  let (keys, c) := list c pattern
  (keys.length, keys.foldl remove c)

def removeAll (c : σ) (patterns : List String) : Nat × σ :=
  patterns.foldl (fun (n, c) pattern =>
    let (m, c) := removeMatching c pattern
    (n + m, c)) (0, c)

def invalidatePrincipal (c : σ) (principal : String) : Nat × σ :=
  removeAll c [CacheKey.decisionsOf principal, CacheKey.rolesOf principal]

def invalidateGroup (c : σ) (group : String) : Nat × σ :=
  removeAll c [CacheKey.rolesWithin group, CacheKey.decisionsWithin group]

def invalidateEverything (c : σ) : Nat × σ :=
  removeAll c [CacheKey.allRoles, CacheKey.allDecisions]

end EvaluationCache

end AccessControl
