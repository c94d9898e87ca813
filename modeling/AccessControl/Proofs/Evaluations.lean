import AccessControl.Proofs.Upkeep

/-! An evaluation answers with a decision that it was served, or decides from a role set that it was
served or has resolved. The engine goes on keeping good values if these are good once they were
written and read back. -/

namespace AccessControl

namespace Engine

open CacheKey (About Clean Plain)
open EvaluationCache (keptRoles keptDecision)

variable {σ : Type} [LosingCache σ] {e : Engine σ} {R : String → Context → EffectiveRoles → Prop}
  {D : AccessRequest → Context → Decision → Prop} {principal : String} {ctx : Context}
  {request : AccessRequest}

lemma eq_at {ctx' : Context} (ho : ctx'.organization = ctx.organization)
    (hg : ctx'.group = ctx.group) : ctx' = { ctx with now := ctx'.now } := by
  rw [← ho, ← hg]

lemma cachedRoles_spec (h : e.Keeps R D) (hp : Clean principal) (hctx : ctx.Clean) :
    (e.cachedRoles principal ctx).2.Keeps R D ∧ e.SameBase (e.cachedRoles principal ctx).2 ∧
      ∀ v, (e.cachedRoles principal ctx).1 = some v →
        R principal ctx v ∧ (∀ role ∈ v.names, Plain role) ∧ Before ctx.now v.validUntil := by
  unfold cachedRoles
  split
  · exact ⟨h, .refl e, by simp⟩
  · rename_i c hc
    refine ⟨h.of_cache hc (EvaluationCache.fetch_spec keptRoles c _ _).1 rfl, ⟨rfl, rfl, rfl⟩, ?_⟩
    exact fun v hv => (h.roles c hc hp hctx).of_fetch hv

lemma cachedDecision_spec (h : e.Keeps R D) (hr : request.Clean) (hctx : ctx.Clean) :
    (e.cachedDecision (CacheKey.decision request ctx) ctx.now).2.Keeps R D ∧
      e.SameBase (e.cachedDecision (CacheKey.decision request ctx) ctx.now).2 ∧
      ∀ d, (e.cachedDecision (CacheKey.decision request ctx) ctx.now).1 = some d →
        ∃ d₀, D request ctx d₀ ∧ Before ctx.now d₀.validUntil ∧ d.allowed = d₀.allowed := by
  unfold cachedDecision
  split
  · exact ⟨h, .refl e, by simp⟩
  · rename_i c hc
    have hs := (EvaluationCache.fetch_spec keptDecision c
      (CacheKey.decision request ctx) ctx.now).1
    cases hg : EvaluationCache.getDecision c (CacheKey.decision request ctx) ctx.now with
    | mk found c' =>
      rw [← EvaluationCache.getDecision, hg] at hs
      have hk : Keeps { e with cache := some c' } R D := h.of_cache hc hs rfl
      cases found with
      | none => exact ⟨hk.congr rfl, ⟨rfl, rfl, rfl⟩, by simp⟩
      | some d =>
        refine ⟨hk.congr rfl, ⟨rfl, rfl, rfl⟩, fun d' hd => ?_⟩
        obtain rfl := Option.some.inj hd
        obtain ⟨hd, -, hb⟩ := (h.decisions c hc hr hctx).of_fetch (congrArg Prod.fst hg)
        exact ⟨d, hd, hb, rfl⟩

lemma keepRoles_keeps (h : e.Keeps R D) (hp : Clean principal) (hctx : ctx.Clean)
    {v : EffectiveRoles} (hv : ∀ role ∈ v.names, Plain role)
    (hgood : ∀ v', EffectiveRoles.ofText? v.json.written = some v' →
      (∀ role ∈ v'.names, Plain role) ∧ ∀ t, R principal { ctx with now := t } v') :
    (e.keepRoles principal ctx v).Keeps R D := by
  have hkeep : ∀ c', (e.keepRoles principal ctx v).cache = some c' → ∃ c, e.cache = some c ∧
      EvaluationCache.putRoles e.lifetimes.roles c principal ctx v = c' :=
    fun c' hc' => Option.map_eq_some_iff.mp hc'
  constructor
  · intro c' hc' principal' ctx' hp' hctx'
    obtain ⟨c, hc, rfl⟩ := hkeep c' hc'
    have ht := h.roles c hc hp' hctx'
    unfold EvaluationCache.putRoles
    split
    · refine ht.write (.roles hp' hctx') (.roles hp hctx) hv fun hkey v' hv' => ?_
      obtain ⟨rfl, ho, hg⟩ := CacheKey.roles_injective hp hctx hctx' hkey
      rw [eq_at ho hg]
      exact ⟨(hgood v' hv').1, (hgood v' hv').2 ctx'.now⟩
    · exact ht
  · intro c' hc' request ctx' hr hctx'
    obtain ⟨c, hc, rfl⟩ := hkeep c' hc'
    have ht := h.decisions c hc hr hctx'
    unfold EvaluationCache.putRoles
    split
    · refine ht.write (.decision hr hctx') (.roles hp hctx) hv fun hkey => ?_
      exact absurd hkey.symm (CacheKey.roles_ne_decision principal ctx request ctx')
    · exact ht

lemma keepDecision_keeps (h : e.Keeps R D) (hr : request.Clean) (hctx : ctx.Clean)
    {d : Decision} (hd : ∀ role ∈ d.roleIds, Plain role)
    (hgood : ∀ d', Decision.ofText? d.json.written = some d' →
      (∀ role ∈ d'.roleIds, Plain role) ∧ ∀ t, D request { ctx with now := t } d') :
    (e.keepDecision (CacheKey.decision request ctx) d).Keeps R D := by
  have hkeep : ∀ c', (e.keepDecision (CacheKey.decision request ctx) d).cache = some c' →
      ∃ c, e.cache = some c ∧ EvaluationCache.putDecision e.lifetimes.decisions c
        (CacheKey.decision request ctx) d = c' :=
    fun c' hc' => Option.map_eq_some_iff.mp hc'
  constructor
  · intro c' hc' principal ctx' hp hctx'
    obtain ⟨c, hc, rfl⟩ := hkeep c' hc'
    have ht := h.roles c hc hp hctx'
    unfold EvaluationCache.putDecision
    split
    · refine ht.write (.roles hp hctx') (.decision hr hctx) hd fun hkey => ?_
      exact absurd hkey (CacheKey.roles_ne_decision principal ctx' request ctx)
    · exact ht
  · intro c' hc' request' ctx' hr' hctx'
    obtain ⟨c, hc, rfl⟩ := hkeep c' hc'
    have ht := h.decisions c hc hr' hctx'
    unfold EvaluationCache.putDecision
    split
    · refine ht.write (.decision hr' hctx') (.decision hr hctx) hd fun hkey d' hd' => ?_
      obtain ⟨rfl, ho, hg⟩ := CacheKey.decision_injective hr hctx hctx' hkey
      have hdecode : keptDecision.decode = Decision.ofText? := rfl
      rw [hdecode] at hd'
      rw [eq_at ho hg]
      exact ⟨(hgood d' hd').1, (hgood d' hd').2 ctx'.now⟩
    · exact ht

def Drawn (e : Engine σ) (R : String → Context → EffectiveRoles → Prop) (principal : String)
    (ctx : Context) (v : EffectiveRoles) : Prop :=
  (R principal ctx v ∧ (∀ role ∈ v.names, Plain role) ∧ Before ctx.now v.validUntil) ∨
    v = e.store.effectiveRoles e.maxDepth principal ctx

def StoresRoles (e : Engine σ) (R : String → Context → EffectiveRoles → Prop)
    (principal : String) (ctx : Context) : Prop :=
  (∀ role ∈ (e.store.effectiveRoles e.maxDepth principal ctx).names, Plain role) ∧
    ∀ v, EffectiveRoles.ofText? (e.store.effectiveRoles e.maxDepth principal ctx).json.written =
      some v → (∀ role ∈ v.names, Plain role) ∧ ∀ t, R principal { ctx with now := t } v

def StoresDecisions (e : Engine σ) (R : String → Context → EffectiveRoles → Prop)
    (D : AccessRequest → Context → Decision → Prop) (request : AccessRequest) (ctx : Context) :
    Prop :=
  ∀ v id d, e.Drawn R request.principal ctx v →
    e.store.decide e.models v request ctx id = .ok d → (∀ role ∈ d.roleIds, Plain role) ∧
      ∀ elapsed d', Decision.ofText? { d with duration := elapsed }.json.written = some d' →
        (∀ role ∈ d'.roleIds, Plain role) ∧ ∀ t, D request { ctx with now := t } d'

lemma effectiveRoles_spec (h : e.Keeps R D) (ha : e.store.available = true)
    (hp : Clean principal) (hctx : ctx.Clean) (hstores : e.StoresRoles R principal ctx) :
    ∃ v, (e.effectiveRoles principal ctx).1 = .ok v ∧ e.Drawn R principal ctx v ∧
      (e.effectiveRoles principal ctx).2.Keeps R D ∧
        e.SameBase (e.effectiveRoles principal ctx).2 := by
  obtain ⟨hk, hb, hserved⟩ := cachedRoles_spec h hp hctx
  rw [effectiveRoles]
  split
  · rename_i v e' hc
    rw [hc] at hk hb hserved
    exact ⟨v, rfl, Or.inl (hserved v rfl), hk, hb⟩
  · rename_i e' hc
    rw [hc] at hk hb
    rw [Store.read_of_available (hb.store ▸ ha), hb.store, hb.maxDepth]
    exact ⟨_, rfl, Or.inr rfl, keepRoles_keeps hk hp hctx hstores.1 hstores.2, hb.trans ⟨rfl, rfl, rfl⟩⟩

lemma decide_spec (h : e.Keeps R D) (ha : e.store.available = true) (hr : request.Clean)
    (hctx : ctx.Clean) (hstores : e.StoresRoles R request.principal ctx) :
    ∃ v id d, e.Drawn R request.principal ctx v ∧
      e.store.decide e.models v request ctx id = .ok d ∧ (e.decide request ctx).1 = .ok d ∧
        (e.decide request ctx).2.Keeps R D ∧ e.SameBase (e.decide request ctx).2 := by
  obtain ⟨v, hv, hdrawn, hk, hb⟩ := effectiveRoles_spec h ha hr.principal hctx hstores
  cases he : e.effectiveRoles request.principal ctx with
  | mk roles e' =>
    rw [he] at hv hk hb
    simp only at hv hk hb
    obtain ⟨d, hd, -⟩ := Store.decide_ok ha e.models v request ctx e'.freshId.1
    refine ⟨v, e'.freshId.1, d, hdrawn, hd, ?_⟩
    simp only [decide, he, hv]
    refine ⟨?_, hk.congr rfl, hb.trans ⟨rfl, rfl, rfl⟩⟩
    change e'.store.decide e'.models v request ctx e'.freshId.1 = .ok d
    rw [hb.store, hb.models, hd]

def Answers (e : Engine σ) (R : String → Context → EffectiveRoles → Prop)
    (D : AccessRequest → Context → Decision → Prop) (request : AccessRequest) (ctx : Context)
    (d : Decision) : Prop :=
  (∃ d₀, D request ctx d₀ ∧ Before ctx.now d₀.validUntil ∧ d.allowed = d₀.allowed) ∨
    ∃ v id d₀, e.Drawn R request.principal ctx v ∧
      e.store.decide e.models v request ctx id = .ok d₀ ∧ d.allowed = d₀.allowed

lemma finish_base (e : Engine σ) (request : AccessRequest) (ctx : Context) (d : Decision)
    (key : Option String) : e.SameBase (e.finish request ctx d key).2 := by
  cases key <;> exact ⟨rfl, rfl, rfl⟩

theorem evaluate_spec (h : e.Keeps R D) (ha : e.store.available = true) (hr : request.Clean)
    (hctx : ctx.Clean) (hstores : e.StoresRoles R request.principal ctx)
    (hdecisions : e.StoresDecisions R D request ctx) :
    (e.evaluate request ctx).2.Keeps R D ∧ e.SameBase (e.evaluate request ctx).2 ∧
      (request.missingField = none →
        ∃ d, (e.evaluate request ctx).1 = .ok d ∧ e.Answers R D request ctx d) := by
  cases hm : request.missingField with
  | some field =>
    rw [evaluate_of_missing hm]
    exact ⟨h.congr rfl, ⟨rfl, rfl, rfl⟩, by simp⟩
  | none =>
    obtain ⟨hk, hb, hserved⟩ := cachedDecision_spec h hr hctx
    cases hc : e.cachedDecision (CacheKey.decision request ctx) ctx.now with
    | mk found e' =>
      rw [hc] at hk hb hserved
      cases found with
      | some d =>
        rw [evaluate_of_hit hm hc]
        exact ⟨hk.congr rfl, hb.trans (finish_base e' request ctx d none),
          fun _ => ⟨_, rfl, Or.inl (hserved d rfl)⟩⟩
      | none =>
        have hdepth := hb.maxDepth
        have hdrawn : ∀ {v}, e'.Drawn R request.principal ctx v →
            e.Drawn R request.principal ctx v := by
          intro v hv
          rwa [Drawn, hb.store, hdepth] at hv
        have hstores' : e'.StoresRoles R request.principal ctx := by
          rwa [StoresRoles, hb.store, hdepth]
        obtain ⟨v, id, d, hv, hd, hok, hk', hb'⟩ :=
          decide_spec hk (hb.store ▸ ha) hr hctx hstores'
        rw [hb.store, hb.models] at hd
        cases he : e'.decide request ctx with
        | mk result e'' =>
          rw [he] at hok hk' hb'
          obtain rfl : result = .ok d := hok
          obtain ⟨hplain, hgood⟩ := hdecisions v id d (hdrawn hv) hd
          rw [evaluate_of_miss hm hc he]
          have hfinish := finish_base e'' request ctx d (some (CacheKey.decision request ctx))
          refine ⟨?_, (hb.trans hb').trans hfinish,
            fun _ => ⟨_, rfl, Or.inr ⟨v, id, d, hdrawn hv, hd, rfl⟩⟩⟩
          exact (keepDecision_keeps (d := { d with duration := e''.elapsed }) hk' hr hctx hplain
            (hgood e''.elapsed)).congr rfl

end Engine

end AccessControl
