import AccessControl.Decision

/-!
The audit trail: one event per decision, handed to a sink. A sink may refuse an event; that never
changes the decision.
-/

namespace AccessControl

structure AuditEvent where
  id : String
  principal : String
  type : String
  resource : String
  action : String
  allowed : Bool
  reason : String
  via : Option String
  binding : Option String
  organization : Option String
  cacheHit : Bool
  latencyMicros : Nat
  timestamp : Instant
deriving DecidableEq, Repr, Inhabited

namespace AuditEvent

def ofDecision (r : AccessRequest) (organization : Option String) (d : Decision) : AuditEvent where
  id := d.id
  principal := r.principal
  type := r.type
  resource := r.resource
  action := r.action
  allowed := d.allowed
  reason := d.reason
  via := d.via
  binding := d.binding
  organization := organization
  cacheHit := d.cacheHit
  latencyMicros := d.duration.micros
  timestamp := d.evaluatedAt

def json (e : AuditEvent) : Json :=
  .object ([("id", .string e.id), ("principal_id", .string e.principal),
      ("resource_type", .string e.type), ("resource_id", .string e.resource),
      ("action", .string e.action), ("allowed", .bool e.allowed), ("reason", .string e.reason)] ++
    Json.field? "matched_via" .string e.via ++ Json.field? "binding_id" .string e.binding ++
    [("organization_id", (e.organization.map Json.string).getD .null),
      ("cache_hit", .bool e.cacheHit), ("latency_us", .nat e.latencyMicros),
      ("timestamp", e.timestamp.json)])

def ofDocument? (d : Document) : Option AuditEvent := do
  let r ← d.record? ["id", "principal_id", "resource_type", "resource_id", "action", "allowed",
    "reason", "matched_via", "binding_id", "organization_id", "cache_hit", "latency_us",
    "timestamp"]
  pure {
    id := ← r.required "id" Document.text?
    principal := ← r.required "principal_id" Document.text?
    type := ← r.required "resource_type" Document.text?
    resource := ← r.required "resource_id" Document.text?
    action := ← r.required "action" Document.text?
    allowed := ← r.required "allowed" Document.bool?
    reason := ← r.required "reason" Document.text?
    via := ← r.optional "matched_via" Document.text?
    binding := ← r.optional "binding_id" Document.text?
    organization := ← r.nullable "organization_id" Document.text?
    cacheHit := ← r.required "cache_hit" Document.bool?
    latencyMicros := ← r.required "latency_us" Document.word?
    timestamp := ← r.required "timestamp" Instant.ofDocument? }

end AuditEvent

structure AuditLog where
  capacity : Nat
  events : List AuditEvent

namespace AuditLog

def defaultCapacity : Nat := 10000

def ofCapacity (n : Nat) : AuditLog := ⟨max n 1, []⟩

def size (l : AuditLog) : Nat := l.events.length

def record (l : AuditLog) (e : AuditEvent) : AuditLog :=
  { l with events := (e :: l.events).take l.capacity }

def about (l : AuditLog) (principal : String) (limit : Nat) : List AuditEvent :=
  (l.events.filter (·.principal == principal)).take limit

def allowedCount (l : AuditLog) : Nat := l.events.countP (·.allowed)
def deniedCount (l : AuditLog) : Nat := l.size - l.allowedCount
def cacheHits (l : AuditLog) : Nat := l.events.countP (·.cacheHit)

def totalLatency (l : AuditLog) : Nat := l.events.foldl (fun n e => n + e.latencyMicros) 0

def averageLatency (l : AuditLog) : Float :=
  if l.size = 0 then 0 else l.totalLatency.toUInt64.toFloat / l.size.toUInt64.toFloat

end AuditLog

inductive AuditSink where
  | log (log : AuditLog)
  | stream
  | closed

namespace AuditSink

def accept : AuditSink → AuditEvent → Except Fault Unit × AuditSink
  | log l, e => (.ok (), log (l.record e))
  | stream, _ => (.ok (), stream)
  | closed, _ => (.error (.store "audit sink closed"), closed)

end AuditSink

end AccessControl
