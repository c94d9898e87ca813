import AccessControl.Proofs.Upkeep

/-! What an evaluation has kept is what a later one is served, as far as the cache still holds it. -/

namespace AccessControl

open LosingCache (Holds)

namespace Engine

section cache

variable {σ : Type} [LosingCache σ] {e : Engine σ} {request : AccessRequest} {ctx : Context} {c : σ}
  {d : Decision} {v : EffectiveRoles}

lemma evaluate_of_served (hm : request.missingField = none) (hc : e.cache = some c)
    (hd : (EvaluationCache.getDecision c (CacheKey.decision request ctx) ctx.now).1 = some d) :
    ∃ d', (e.evaluate request ctx).1 = .ok d' ∧ d'.allowed = d.allowed := by
  cases hg : EvaluationCache.getDecision c (CacheKey.decision request ctx) ctx.now with
  | mk found c' =>
    obtain rfl : found = some d := by simpa [hg] using hd
    have hcached : e.cachedDecision (CacheKey.decision request ctx) ctx.now =
        (some { d with cacheHit := true },
          { e with cache := some c' }.count Metrics.countCacheHit) := by
      simp only [cachedDecision, hc, hg]
    rw [evaluate_of_hit hm hcached]
    exact ⟨_, rfl, rfl⟩

lemma cache_of_decide {e' e'' : Engine σ}
    (hr : e.cachedRoles request.principal ctx = (none, e'))
    (hd : e.decide request ctx = (.ok d, e'')) :
    e''.cache = (e'.keepRoles request.principal ctx
      (e'.store.effectiveRoles e'.maxDepth request.principal ctx)).cache := by
  simp only [decide, effectiveRoles, hr] at hd
  cases hread : e'.store.read (e'.store.effectiveRoles e'.maxDepth request.principal ctx) with
  | error fault =>
    rw [hread] at hd
    cases hd
  | ok roles =>
    rw [hread] at hd
    rw [Store.read_ok hread]
    exact congrArg (fun r => r.2.cache) hd.symm

lemma roles_of_holds (hm : request.missingField = none)
    (hmiss : (e.cachedDecision (CacheKey.decision request ctx) ctx.now).1 = none)
    (hmissed : ((e.cachedDecision (CacheKey.decision request ctx) ctx.now).2.cachedRoles
      request.principal ctx).1 = none)
    (hd : (e.evaluate request ctx).1 = .ok d)
    (hbound : (e.store.effectiveRoles e.maxDepth request.principal ctx).validUntil = none)
    (hc : (e.evaluate request ctx).2.cache = some c) {text : String}
    (h : Holds c (CacheKey.roles request.principal ctx) text) :
    text = (e.store.effectiveRoles e.maxDepth request.principal ctx).json.written := by
  have hbase := e.cachedDecision_base (CacheKey.decision request ctx) ctx.now
  cases he : e.cachedDecision (CacheKey.decision request ctx) ctx.now with
  | mk found e₁ =>
    rw [he] at hmiss hmissed hbase
    obtain rfl : found = none := hmiss
    have hbase' := hbase.trans (e₁.cachedRoles_base request.principal ctx)
    cases hr : e₁.cachedRoles request.principal ctx with
    | mk roles e₂ =>
      rw [hr] at hmissed hbase'
      obtain rfl : roles = none := hmissed
      cases hdecide : e₁.decide request ctx with
      | mk result e₃ =>
        cases result with
        | error fault =>
          rw [evaluate_of_fault hm he hdecide] at hd
          cases hd
        | ok d₀ =>
          rw [evaluate_of_miss hm he hdecide] at hc
          obtain ⟨c₃, hc₃, rfl⟩ := Option.map_eq_some_iff.mp hc
          have hkept := EvaluationCache.holds_of_putDecision
            (CacheKey.roles_ne_decision request.principal ctx request ctx)
            (fun role _ => CacheKey.roles_ne_marker _ _ role _) h
          obtain ⟨c₂, -, rfl⟩ :=
            Option.map_eq_some_iff.mp ((cache_of_decide hr hdecide).symm.trans hc₃)
          rw [hbase'.store, hbase'.maxDepth] at hkept
          exact EvaluationCache.text_of_putRoles hbound hkept

lemma allowed_of_cachedRoles (hm : request.missingField = none) (ha : e.store.available = true)
    (hmiss : (e.cachedDecision (CacheKey.decision request ctx) ctx.now).1 = none)
    (hv : ((e.cachedDecision (CacheKey.decision request ctx) ctx.now).2.cachedRoles
      request.principal ctx).1 = some v)
    (hallows : e.store.Allows e.models v request ctx) :
    ∃ d, (e.evaluate request ctx).1 = .ok d ∧ d.allowed = true := by
  have hbase := e.cachedDecision_base (CacheKey.decision request ctx) ctx.now
  cases he : e.cachedDecision (CacheKey.decision request ctx) ctx.now with
  | mk found e₁ =>
    rw [he] at hmiss hv hbase
    obtain rfl : found = none := hmiss
    have hbase' := hbase.trans (e₁.cachedRoles_base request.principal ctx)
    cases hr : e₁.cachedRoles request.principal ctx with
    | mk roles e₂ =>
      rw [hr] at hv hbase'
      obtain rfl : roles = some v := hv
      obtain ⟨d, hd, hiff, -⟩ := Store.decide_ok ha e.models v request ctx e₂.freshId.1
      have hdecide : e₁.decide request ctx = (.ok d, e₂.freshId.2) := by
        simp only [decide, effectiveRoles, hr]
        rw [← hd, ← hbase'.store, ← hbase'.models]
        rfl
      rw [evaluate_of_miss hm he hdecide]
      exact ⟨_, rfl, hiff.mpr hallows⟩

lemma allowed_from_kept {request' : AccessRequest} (hm : request.missingField = none)
    (hm' : request'.missingField = none) (hp : request'.principal = request.principal)
    (ha : e.store.available = true)
    (hmiss : (e.cachedDecision (CacheKey.decision request ctx) ctx.now).1 = none)
    (hmissed : ((e.cachedDecision (CacheKey.decision request ctx) ctx.now).2.cachedRoles
      request.principal ctx).1 = none)
    (hd : (e.evaluate request ctx).1 = .ok d)
    (hbound : (e.store.effectiveRoles e.maxDepth request.principal ctx).validUntil = none)
    (hreads : EffectiveRoles.ofText?
      (e.store.effectiveRoles e.maxDepth request.principal ctx).json.written = some v)
    (hbound' : v.validUntil = none) (hallows : e.store.Allows e.models v request' ctx)
    (hheld : (e.evaluate request ctx).2.cache.any (fun c =>
      let found := EvaluationCache.getDecision c (CacheKey.decision request' ctx) ctx.now
      let kept := EvaluationCache.read found.2 (CacheKey.roles request.principal ctx)
      found.1.isNone && kept.1.isSome && (EvaluationCache.markersIntact kept.2
        (CacheKey.roles request.principal ctx) (Text.sortedDistinct v.names)).1) = true) :
    ∃ d', ((e.evaluate request ctx).2.evaluate request' ctx).1 = .ok d' ∧ d'.allowed = true := by
  obtain ⟨c, hc, hheld⟩ := (Option.any_eq_true _ _).mp hheld
  simp only [Bool.and_eq_true, Option.isNone_iff_eq_none] at hheld
  obtain ⟨⟨hnone, hread⟩, hmarkers⟩ := hheld
  have hb := e.evaluate_base request ctx
  have hshrunk := (EvaluationCache.fetch_spec EvaluationCache.keptDecision c
    (CacheKey.decision request' ctx) ctx.now).1
  have hgot : (EvaluationCache.getRoles
      (EvaluationCache.getDecision c (CacheKey.decision request' ctx) ctx.now).2
      request.principal ctx).1 = some v := by
    refine EvaluationCache.fetch_of_held hread (fun text h => ?_) hbound' hmarkers _
    have hdecode : EvaluationCache.keptRoles.decode = EffectiveRoles.ofText? := rfl
    rw [roles_of_holds hm hmiss hmissed hd hbound hc (hshrunk _ _ h), hdecode]
    exact hreads
  have hcached : (e.evaluate request ctx).2.cachedDecision (CacheKey.decision request' ctx) ctx.now =
      (none, { (e.evaluate request ctx).2 with
        cache := some (EvaluationCache.getDecision c (CacheKey.decision request' ctx)
          ctx.now).2 }.count Metrics.countCacheMiss) := by
    simp only [cachedDecision, hc, hnone]
  refine allowed_of_cachedRoles (v := v) hm' (hb.store ▸ ha) (by rw [hcached]) ?_
    (by rw [hb.store, hb.models]; exact hallows)
  rw [hcached, hp]
  exact hgot

end cache

/-! A caveat that holds until half a second after the end of second 60. Only the last second of a minute
is read as one that a leap second follows, so what is kept says that it ends in second 61. -/

def dusk : Engine UnsteadyCache where
  config := .standard
  models := [.direct]
  store :=
    { Store.empty with
      roles := .ofList [.global "reader" "Reader"]
      resourcePermissions := [.typeLevel "p" "reader" "doc" "read"]
      bindings := .ofList [{ Binding.attach "b" .user "ada" (.role "reader") "doc" "acme" with
        caveat := some (Caveat.unconstrained.withWindow (.endingAt ⟨60, 1500000000⟩)) }] }
  cache := some (.ofCapacity 8 fun _ => ⟨fun _ => false, .zero⟩)
  audit := none
  metrics := none
  ids := ⟨0⟩
  elapsed := .zero

def atDusk : Context := ⟨some "acme", none, ⟨61, 0⟩⟩

def wanting (resource : String) : AccessRequest := ⟨"ada", "doc", resource, "read"⟩

lemma required_dusk : ∀ b ∈ dusk.store.bindings.rows, ∀ c, b.caveat = some c → c.required = [] := by
  intro b hb c hc
  obtain rfl := List.mem_singleton.mp hb
  obtain rfl := Option.some.inj hc
  rfl

lemma reads_dusk : ∃ v, EffectiveRoles.ofText?
    (dusk.store.effectiveRoles dusk.maxDepth "ada" atDusk).json.written = some v ∧
      v.validUntil = none ∧ v.names = ["reader"] ∧
      dusk.store.Allows dusk.models v (wanting "map") atDusk := by
  have hany : (EffectiveRoles.ofText?
      (dusk.store.effectiveRoles dusk.maxDepth "ada" atDusk).json.written).any (fun v =>
        v.validUntil.isNone && v.names == ["reader"] &&
          (dusk.store.decide dusk.models v (wanting "map") atDusk "").toOption.any
            (·.allowed)) = true := by
    rw [EffectiveRoles.ofText?, Document.ofText?, Document.scan?, Json.written,
      String.toList_ofList]
    decide +kernel
  obtain ⟨v, hv, hspec⟩ := (Option.any_eq_true _ _).mp hany
  simp only [Bool.and_eq_true, Option.isNone_iff_eq_none, beq_iff_eq] at hspec
  obtain ⟨d, hd, hiff, -⟩ :=
    Store.decide_ok (s := dusk.store) rfl dusk.models v (wanting "map") atDusk ""
  refine ⟨v, hv, hspec.1.1, hspec.1.2, hiff.mp ?_⟩
  simpa [hd, Except.toOption] using hspec.2

lemma allowed_after_dusk :
    ∃ d, ((dusk.evaluate (wanting "plan") atDusk).2.evaluate (wanting "map") atDusk).1 = .ok d ∧
      d.allowed = true := by
  obtain ⟨v, hreads, hbound, hnames, hallows⟩ := reads_dusk
  have hok : (dusk.evaluate (wanting "plan") atDusk).1.toOption.isSome = true := by decide +kernel
  cases hd : (dusk.evaluate (wanting "plan") atDusk).1 with
  | error fault => simp [hd, Except.toOption] at hok
  | ok d =>
    exact allowed_from_kept (by decide) (by decide) rfl rfl
      (Option.isNone_iff_eq_none.mp (by decide +kernel))
      (Option.isNone_iff_eq_none.mp (by decide +kernel)) hd
      (Option.isNone_iff_eq_none.mp (by decide +kernel)) hreads hbound hallows
      (by rw [hnames]; decide +kernel)

lemma denied_at_dusk {e : Engine UnsteadyCache} (hb : dusk.SameBase e) :
    ∃ d, ((e.withCache (none : Option MemoryCache)).evaluate (wanting "map") atDusk).1 = .ok d ∧
      d.allowed = false := by
  have hm : (wanting "map").missingField = none := by decide
  have hnot : ¬ dusk.store.AllowsNow dusk.models dusk.maxDepth (wanting "map") atDusk := by
    obtain ⟨d, hd, hiff⟩ := evaluate_uncached (e := dusk.withCache (none : Option MemoryCache))
      atDusk rfl hm rfl
    have hdenied : ((dusk.withCache (none : Option MemoryCache)).evaluate (wanting "map")
        atDusk).1.toOption.any (·.allowed) = false := by decide +kernel
    rw [hd] at hdenied
    exact fun h => Bool.false_ne_true (hdenied.symm.trans (hiff.mpr h))
  obtain ⟨d, hd, hiff⟩ := evaluate_uncached (e := e.withCache (none : Option MemoryCache)) atDusk rfl
    hm (congrArg Store.available hb.store)
  refine ⟨d, hd, Bool.eq_false_iff.mpr fun h => hnot ?_⟩
  have hnow : e.store.AllowsNow e.models e.maxDepth (wanting "map") atDusk := hiff.mp h
  rwa [hb.store, hb.models, hb.maxDepth] at hnow

end Engine

end AccessControl
