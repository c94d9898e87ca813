import AccessControl.Request

/-! Decisions: whether a request is allowed, why, and how long the answer holds. -/

namespace AccessControl

structure RoleSummary where
  id : String
  name : String
  provenance : List String
  conditional : Bool
deriving DecidableEq, Repr, Inhabited

namespace RoleSummary

def ofRole (conditional : Bool) (r : EffectiveRole) : RoleSummary :=
  ⟨r.role.id, r.role.name, r.provenance.map Provenance.text, conditional⟩

def addConditional (out : List RoleSummary) (r : EffectiveRole) : List RoleSummary :=
  if out.any (·.id == r.role.id) then out else out ++ [ofRole true r]

def ofRoles (e : EffectiveRoles) : List RoleSummary :=
  (e.conditional.flatMap (·.roles)).foldl addConditional (e.roles.map (ofRole false))

def json (r : RoleSummary) : Json :=
  .object [("id", .string r.id), ("name", .string r.name),
    ("provenance", .array (r.provenance.map .string)), ("conditional", .bool r.conditional)]

def ofDocument? (d : Document) : Option RoleSummary := do
  let r ← d.record? ["id", "name", "provenance", "conditional"]
  pure {
    id := ← r.required "id" Document.text?
    name := ← r.required "name" Document.text?
    provenance := ← r.required "provenance" (Document.list? Document.text?)
    conditional := ← r.withDefault "conditional" Document.bool? false }

end RoleSummary

structure Decision where
  id : String
  allowed : Bool
  reason : String
  via : Option String
  model : Option GrantModel
  binding : Option String
  roles : List RoleSummary
  columnGroups : List String
  trace : List String
  cacheHit : Bool
  evaluatedAt : Instant
  duration : Duration
  validUntil : Option Instant
deriving DecidableEq, Repr, Inhabited

namespace Decision

def plain (id : String) (allowed : Bool) (reason : String) (ctx : Context) : Decision where
  id := id
  allowed := allowed
  reason := reason
  via := none
  model := none
  binding := none
  roles := []
  columnGroups := []
  trace := []
  cacheHit := false
  evaluatedAt := ctx.now
  duration := .zero
  validUntil := none

def allow (id : String) (m : GrantMatch) (ctx : Context) : Decision :=
  { plain id true ("granted via role " ++ m.roleName ++ " (" ++ m.model.text ++ ")") ctx with
    via := some m.via
    model := some m.model }

def allowBoundPermission (id binding permission : String) (ctx : Context) : Decision :=
  { plain id true
      ("granted via binding " ++ binding ++ " (bound permission " ++ permission ++ ")") ctx with
    via := some ("binding:" ++ binding ++ " (bound permission)")
    model := some .named }

def deny (id reason : String) (ctx : Context) : Decision :=
  plain id false reason ctx

def withRoles (d : Decision) (e : EffectiveRoles) : Decision :=
  { d with roles := RoleSummary.ofRoles e }

def withTrace (d : Decision) (trace : List String) : Decision :=
  { d with trace := trace }

def throughBinding (d : Decision) (binding : String) (columnGroups : List String) : Decision :=
  { d with binding := some binding, columnGroups := columnGroups }

def holdingUntil (d : Decision) (bound : Option Instant) : Decision :=
  { d with validUntil := bound }

def roleIds (d : Decision) : List String :=
  d.roles.map (·.id)

def json (d : Decision) : Json :=
  .object ([("id", .string d.id), ("allowed", .bool d.allowed), ("reason", .string d.reason)] ++
    Json.field? "matched_via" .string d.via ++
    Json.field? "model" (fun m => .string m.word) d.model ++
    Json.field? "binding_id" .string d.binding ++
    [("effective_roles", .array (d.roles.map RoleSummary.json))] ++
    (match d.columnGroups with
      | [] => []
      | groups => [("column_groups", .array (groups.map .string))]) ++
    [("trace", .array (d.trace.map .string)), ("cache_hit", .bool d.cacheHit),
      ("evaluated_at", d.evaluatedAt.json), ("evaluation_duration", d.duration.json)] ++
    Json.field? "valid_until" Instant.json d.validUntil)

def ofDocument? (d : Document) : Option Decision := do
  let r ← d.record? ["id", "allowed", "reason", "matched_via", "model", "binding_id",
    "effective_roles", "column_groups", "trace", "cache_hit", "evaluated_at",
    "evaluation_duration", "valid_until"]
  pure {
    id := ← r.required "id" Document.text?
    allowed := ← r.required "allowed" Document.bool?
    reason := ← r.required "reason" Document.text?
    via := ← r.optional "matched_via" Document.text?
    model := ← r.optional "model" (Document.choice? GrantModel.words)
    binding := ← r.optional "binding_id" Document.text?
    roles := ← r.withDefault "effective_roles" (Document.list? RoleSummary.ofDocument?) []
    columnGroups := ← r.withDefault "column_groups" (Document.list? Document.text?) []
    trace := ← r.withDefault "trace" (Document.list? Document.text?) []
    cacheHit := ← r.withDefault "cache_hit" Document.bool? false
    evaluatedAt := ← r.required "evaluated_at" Instant.ofDocument?
    duration := ← r.required "evaluation_duration" Duration.ofDocument?
    validUntil := ← r.optional "valid_until" Instant.ofDocument? }

def ofText? (s : String) : Option Decision :=
  (Document.ofText? s).bind ofDocument?

end Decision

structure FiledDecision where
  key : String
  decision : Decision
deriving DecidableEq, Repr, Inhabited

instance : Keyed FiledDecision := ⟨FiledDecision.key⟩

structure BulkDecision where
  principal : String
  results : Table FiledDecision

namespace BulkDecision

def empty (principal : String) : BulkDecision := ⟨principal, .empty⟩

def file (b : BulkDecision) (check : ResourceCheck) (d : Decision) : BulkDecision :=
  { b with results := b.results.insert ⟨check.key, d⟩ }

def allowed (b : BulkDecision) (check : ResourceCheck) : Bool :=
  (b.results.get? check.key).any (·.decision.allowed)

def allowedCount (b : BulkDecision) : Nat :=
  b.results.rows.countP (·.decision.allowed)

def json (b : BulkDecision) : Json :=
  .object [("principal_id", .string b.principal),
    ("results", .object (b.results.rows.map fun f => (f.key, f.decision.json)))]

def results? (d : Document) : Option (Table FiledDecision) :=
  match d with
  | .object fields => do
    let filed ← Document.allOf? Decision.ofDocument? (fields.map (·.2))
    pure (.ofList ((fields.zip filed).map fun (f, d) => ⟨f.1, d⟩))
  | _ => none

def ofDocument? (d : Document) : Option BulkDecision := do
  let r ← d.record? ["principal_id", "results"]
  pure {
    principal := ← r.required "principal_id" Document.text?
    results := ← r.required "results" results? }

end BulkDecision

end AccessControl
