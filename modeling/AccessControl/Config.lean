import AccessControl.Fault
import AccessControl.Group
import AccessControl.Cache.Evaluation
import AccessControl.Cache.Memory
import AccessControl.Audit

/-! Settings of the engine, in four sections that may each be left out. -/

namespace AccessControl

structure CacheSettings where
  enabled : Bool
  roleSeconds : Nat
  decisionSeconds : Nat
  capacity : Nat
deriving DecidableEq, Repr, Inhabited

structure HierarchySettings where
  maxDepth : Nat
deriving DecidableEq, Repr, Inhabited

structure AuditSettings where
  enabled : Bool
  capacity : Nat
deriving DecidableEq, Repr, Inhabited

structure MetricsSettings where
  enabled : Bool
deriving DecidableEq, Repr, Inhabited

structure Config where
  cache : CacheSettings
  hierarchy : HierarchySettings
  audit : AuditSettings
  metrics : MetricsSettings
deriving DecidableEq, Repr, Inhabited

abbrev RecordReader := List String → Document → Option Record

namespace CacheSettings

def standard : CacheSettings := ⟨true, 300, 60, MemoryCache.defaultCapacity⟩

def lifetimes (c : CacheSettings) : Lifetimes :=
  ⟨.ofSeconds c.roleSeconds, .ofSeconds c.decisionSeconds⟩

def json (c : CacheSettings) : Json :=
  .object [("enabled", .bool c.enabled), ("role_ttl_secs", .nat c.roleSeconds),
    ("decision_ttl_secs", .nat c.decisionSeconds), ("capacity", .nat c.capacity)]

def ofDocument? (record? : RecordReader) (d : Document) : Option CacheSettings := do
  let r ← record? ["enabled", "role_ttl_secs", "decision_ttl_secs", "capacity"] d
  pure {
    enabled := ← r.withDefault "enabled" Document.bool? standard.enabled
    roleSeconds := ← r.withDefault "role_ttl_secs" Document.word? standard.roleSeconds
    decisionSeconds :=
      ← r.withDefault "decision_ttl_secs" Document.word? standard.decisionSeconds
    capacity := ← r.withDefault "capacity" Document.word? standard.capacity }

end CacheSettings

namespace HierarchySettings

def deepest : Nat := 8

def standard : HierarchySettings := ⟨deepest⟩

def json (h : HierarchySettings) : Json :=
  .object [("max_depth", .nat h.maxDepth)]

def ofDocument? (record? : RecordReader) (d : Document) : Option HierarchySettings := do
  let r ← record? ["max_depth"] d
  pure { maxDepth := ← r.withDefault "max_depth" Document.word? standard.maxDepth }

end HierarchySettings

namespace AuditSettings

def standard : AuditSettings := ⟨true, AuditLog.defaultCapacity⟩

def json (a : AuditSettings) : Json :=
  .object [("enabled", .bool a.enabled), ("buffer_size", .nat a.capacity)]

def ofDocument? (record? : RecordReader) (d : Document) : Option AuditSettings := do
  let r ← record? ["enabled", "buffer_size"] d
  pure {
    enabled := ← r.withDefault "enabled" Document.bool? standard.enabled
    capacity := ← r.withDefault "buffer_size" Document.word? standard.capacity }

end AuditSettings

namespace MetricsSettings

def standard : MetricsSettings := ⟨true⟩

def json (m : MetricsSettings) : Json :=
  .object [("enabled", .bool m.enabled)]

def ofDocument? (record? : RecordReader) (d : Document) : Option MetricsSettings := do
  let r ← record? ["enabled"] d
  pure { enabled := ← r.withDefault "enabled" Document.bool? standard.enabled }

end MetricsSettings

namespace Config

def standard : Config := ⟨.standard, .standard, .standard, .standard⟩

def validate (c : Config) : Except Fault Unit :=
  if c.hierarchy.maxDepth = 0 ∨ HierarchySettings.deepest < c.hierarchy.maxDepth then
    .error (.config ("hierarchy.max_depth must be between 1 and " ++
      toString HierarchySettings.deepest))
  else if c.cache.enabled ∧ (c.cache.roleSeconds = 0 ∨ c.cache.decisionSeconds = 0) then
    .error (.config "cache TTLs must be greater than zero")
  else if c.cache.enabled ∧ c.cache.capacity = 0 then
    .error (.config "cache.capacity must be greater than zero")
  else if c.audit.enabled ∧ c.audit.capacity = 0 then
    .error (.config "audit.buffer_size must be greater than zero")
  else .ok ()

def json (c : Config) : Json :=
  .object [("cache", c.cache.json), ("hierarchy", c.hierarchy.json), ("audit", c.audit.json),
    ("metrics", c.metrics.json)]

def ofRecords? (record? : RecordReader) (d : Document) : Option Config := do
  let r ← record? ["cache", "hierarchy", "audit", "metrics"] d
  pure {
    cache := ← r.withDefault "cache" (CacheSettings.ofDocument? record?) .standard
    hierarchy := ← r.withDefault "hierarchy" (HierarchySettings.ofDocument? record?) .standard
    audit := ← r.withDefault "audit" (AuditSettings.ofDocument? record?) .standard
    metrics := ← r.withDefault "metrics" (MetricsSettings.ofDocument? record?) .standard }

def ofDocument? : Document → Option Config :=
  ofRecords? fun names d => d.record? names

end Config

end AccessControl
