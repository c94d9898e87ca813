import AccessControl.Duration
import AccessControl.Fault

/-!
Cache services: texts kept under keys for a limited time. Every call may fail, and a service is free
to lose an entry at any time.
-/

namespace AccessControl

class CacheService (σ : Type) where
  get : σ → String → Except Fault (Option String) × σ
  set : σ → String → String → Duration → Except Fault Unit × σ
  delete : σ → String → Except Fault Unit × σ
  keys : σ → String → Except Fault (List String) × σ

end AccessControl
