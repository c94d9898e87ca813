import AccessControl.Decimal.Written
import AccessControl.Duration

/-!
Metrics: counts of what evaluations came to, and how long the latest of them took. Percentiles and
the average are drawn from the samples that are kept.
-/

namespace AccessControl

structure Metrics where
  window : Nat
  evaluations : Nat
  allowed : Nat
  denied : Nat
  validationDenials : Nat
  cacheHits : Nat
  cacheMisses : Nat
  conditionalGrants : Nat
  invalidated : Nat
  errors : Nat
  latencies : List Duration
deriving DecidableEq, Repr, Inhabited

namespace Metrics

def ofWindow (samples : Nat) : Metrics := ⟨max samples 10, 0, 0, 0, 0, 0, 0, 0, 0, 0, []⟩

def start : Metrics := ofWindow 10000

def countDecision (m : Metrics) (allowed conditional : Bool) : Metrics :=
  let m := { m with evaluations := m.evaluations + 1 }
  if allowed then
    { m with
      allowed := m.allowed + 1
      conditionalGrants := m.conditionalGrants + if conditional then 1 else 0 }
  else { m with denied := m.denied + 1 }

def countValidationDenial (m : Metrics) : Metrics :=
  { m with validationDenials := m.validationDenials + 1 }

def countCacheHit (m : Metrics) : Metrics := { m with cacheHits := m.cacheHits + 1 }
def countCacheMiss (m : Metrics) : Metrics := { m with cacheMisses := m.cacheMisses + 1 }
def countError (m : Metrics) : Metrics := { m with errors := m.errors + 1 }

def countInvalidated (m : Metrics) (entries : Nat) : Metrics :=
  { m with invalidated := m.invalidated + entries }

def sample (m : Metrics) (d : Duration) : Metrics :=
  let latencies := d :: m.latencies
  { m with latencies :=
      if m.window < latencies.length then latencies.take (m.window - m.window / 10)
      else latencies }

def reset (m : Metrics) : Metrics := ofWindow m.window

def share (part whole : Nat) : Float :=
  if whole = 0 then 0 else part.toUInt64.toFloat / whole.toUInt64.toFloat

def cacheHitRate (m : Metrics) : Float := share m.cacheHits (m.cacheHits + m.cacheMisses)
def allowRate (m : Metrics) : Float := share m.allowed (m.allowed + m.denied)

def sortedMillis (m : Metrics) : List Float :=
  (m.latencies.mergeSort fun a b => a.nanos ≤ b.nanos).map Duration.milliseconds

def average (sorted : List Float) : Float :=
  if sorted.isEmpty then 0
  else sorted.foldl (· + ·) 0 / sorted.length.toUInt64.toFloat

def percentile (sorted : List Float) (p : Float) : Float :=
  let index := (sorted.length.toUInt64.toFloat * p).toUInt64.toNat
  (sorted[min index (sorted.length - 1)]?).getD 0

structure Latencies where
  average : Float
  p50 : Float
  p90 : Float
  p99 : Float

def latencySummary (m : Metrics) : Latencies :=
  let sorted := m.sortedMillis
  ⟨average sorted, percentile sorted 0.5, percentile sorted 0.9, percentile sorted 0.99⟩

def counter (name help : String) (n : Nat) : String :=
  "# HELP bastion_authz_" ++ name ++ " " ++ help ++ "\n" ++
    "# TYPE bastion_authz_" ++ name ++ " counter\n" ++
    "bastion_authz_" ++ name ++ " " ++ toString n ++ "\n"

def quantile (name : String) (millis : Float) : String :=
  "bastion_authz_latency_seconds\x7bquantile=\"" ++ name ++ "\"\x7d " ++
    Decimal.measureLayout.write (millis / 1000).toBits ++ "\n"

def latencyText (l : Latencies) : String :=
  "# HELP bastion_authz_latency_seconds Evaluation latency percentiles\n" ++
    "# TYPE bastion_authz_latency_seconds summary\n" ++
    quantile "0.5" l.p50 ++ quantile "0.9" l.p90 ++ quantile "0.99" l.p99

def exposition (m : Metrics) : String :=
  "\n".intercalate [
    counter "evaluations_total" "Evaluations that produced a decision" m.evaluations,
    counter "allowed_total" "Allowed decisions" m.allowed,
    counter "denied_total" "Denied decisions" m.denied,
    counter "cache_hits_total" "Decision cache hits" m.cacheHits,
    counter "cache_misses_total" "Decision cache misses" m.cacheMisses,
    counter "invalidated_total" "Cache entries dropped by invalidation" m.invalidated,
    latencyText m.latencySummary,
    counter "errors_total" "Evaluations failed by infrastructure errors" m.errors]

end Metrics

end AccessControl
