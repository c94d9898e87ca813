import AccessControl.Proofs.Denials
import AccessControl.Proofs.Maintaining
import AccessControl.Proofs.Rereads
import AccessControl.Proofs.SteadyCaches

/-! A denial by an engine whose cache is empty, calm and roomy is kept there, and served again as long as
its text and its markers are held. -/

namespace AccessControl

open LosingCache (Holds)
open CacheKey (About Plain marker)

namespace Store

variable {s : Store} {models : List GrantModel} {maxDepth : Nat} {request : AccessRequest}
  {ctx : Context} {now v : Instant} {d : Decision} {id : String}

def Ends (s : Store) (now v : Instant) : Prop :=
  s.Turns now v ∨ ∃ b ∈ s.bindings.rows, Rejections.startsLater b now = some v

lemma ends_of_denied (ha : s.available = true)
    (h : s.decide models (s.effectiveRoles maxDepth request.principal ctx) request ctx id = .ok d)
    (hdenied : d.allowed = false) (hv : d.validUntil = some v) : s.Ends ctx.now v := by
  by_contra hn
  have hearlier : ∀ t, t < v → Before t d.validUntil := by
    intro t ht
    rw [hv]
    exact Before.some.mpr ht
  have hself : Before v d.validUntil := by
    refine (before_of_denied ha h hdenied).mpr ⟨?_, fun hne g hg happlies hfails => ?_⟩
    · refine before_of_ne (fun t ht => ((before_of_denied ha h hdenied).mp (hearlier t ht)).1) ?_
      exact fun hroles => hn (Or.inl (turns_of_validUntil hroles))
    · refine before_of_ne (fun t ht =>
        ((before_of_denied ha h hdenied).mp (hearlier t ht)).2 hne g hg happlies hfails) ?_
      obtain ⟨b, hb, rfl, -⟩ := mem_conditional.mp hg
      exact fun hstarts => hn (Or.inr ⟨b, (List.mem_filter.mp hb).1, hstarts⟩)
  have hlt : v < v := hself v hv
  rw [Instant.lt_def] at hlt
  omega

lemma Ends.regular (h : s.Ends now v) (hs : s.Cacheable) : v.Regular := by
  rcases h with h | ⟨b, hb, hstarts⟩
  · cases h with
    | membership hm hv => exact (hs.memberships _ hm).transition _ _ _ hv
    | assignment hu hv => exact (hs.userRoles _ hu).transition _ _ _ hv
    | groupRole hg hv => exact (hs.groupRoles _ hg).transition _ _ _ hv
    | inheritance he hv => exact (hs.inheritance _ he).transition _ _ _ hv
  · obtain ⟨w, hw, hv⟩ := Option.bind_eq_some_iff.mp hstarts
    obtain ⟨c, hc, hw⟩ := Option.bind_eq_some_iff.mp hw
    exact ((hs.caveats b hb c hc).window w hw).starts v (Option.filter_eq_some_iff.mp hv).1

/-- Denials can be kept at the instant, which is in no leap second: nothing in the rows ends just then,
and whatever ends later is an instant that can be written. -/
structure Keepable (s : Store) (now : Instant) : Prop where
  whole : now.nanos < Duration.perSecond
  inRange : now.InRange
  ends : ∀ v, s.Ends now v → now < v ∧ v.InRange

lemma evaluatedAt_of_denied (ha : s.available = true) {roles : EffectiveRoles}
    (h : s.decide models roles request ctx id = .ok d) (hdenied : d.allowed = false) :
    d.evaluatedAt = ctx.now := by
  obtain ⟨d', hd', hcases⟩ := decide_cases ha models roles request ctx id
  obtain rfl := Except.ok.inj (h.symm.trans hd')
  cases hcases with
  | noRoles | refused => rfl
  | roles => cases hdenied
  | binding _ _ hr => exact absurd (settled_of_decideBindings ha hr).1 (by simp [hdenied])

structure Lasting (d : Decision) (now : Instant) : Prop where
  held : d.Held
  regular : d.Regular
  whole : d.evaluatedAt.nanos < Duration.perSecond
  evaluated : ∀ b, d.validUntil = some b → d.evaluatedAt < b
  ahead : Before now d.validUntil

lemma Keepable.lasting (hk : s.Keepable ctx.now) (hs : s.Cacheable) (ha : s.available = true)
    (h : s.decide models (s.effectiveRoles maxDepth request.principal ctx) request ctx id = .ok d)
    (hdenied : d.allowed = false) {elapsed : Duration} (he : elapsed.seconds < Word.bound) :
    Lasting { d with duration := elapsed } ctx.now := by
  have hat := evaluatedAt_of_denied ha h hdenied
  have hends := fun v hv => ends_of_denied ha h hdenied (v := v) hv
  have hnanos : ∀ v, d.validUntil = some v → v.Regular := fun v hv => (hends v hv).regular hs
  have hwhole : ¬ Duration.perSecond ≤ ctx.now.nanos := Nat.not_le.mpr hk.whole
  have hless : ctx.now.nanos < 2 * Duration.perSecond := by
    have hwhole := hk.whole
    omega
  constructor
  case held =>
    refine ⟨hat ▸ ⟨hless, hk.inRange⟩, fun v hv => ?_, he⟩
    exact ⟨(hnanos v hv).nanos, (hk.ends v (hends v hv)).2⟩
  case regular => exact ⟨hat ▸ ⟨hless, fun hleap => absurd hleap hwhole⟩, hnanos⟩
  case whole => exact hat ▸ hk.whole
  case evaluated => exact hat ▸ fun v hv => (hk.ends v (hends v hv)).1
  case ahead => exact fun v hv => (hk.ends v (hends v hv)).1

end Store

namespace EvaluationCache

open UnsteadyCache (Roomy)

variable {c : UnsteadyCache} {n : Nat} {ttl : Duration} {principal key role : String}
  {ctx : Context} {v : EffectiveRoles} {d : Decision} {now : Instant}

lemma putRoles_of_roomy (h : c.Roomy ((Text.sortedDistinct v.names).length + 1 + n))
    (ht : 0 < ttl.nanos) (principal : String) (ctx : Context) :
    (putRoles ttl c principal ctx v).Roomy n := by
  rw [putRoles]
  split
  · rename_i left hleft
    exact (write_of_roomy h _ _ (Lifetimes.bounded_pos ht hleft)).1
  · exact h.mono (Nat.le_add_left _ _)

lemma Unmarked.putRoles (h : Unmarked c role) (hkey : About (CacheKey.roles principal ctx) principal ctx)
    (hrole : Plain role) (hroles : ∀ r ∈ v.names, Plain r ∧ r ≠ role) :
    Unmarked (putRoles ttl c principal ctx v) role := by
  rw [EvaluationCache.putRoles]
  split
  · exact h.write hkey hrole hroles
  · exact h

structure HoldsDecision (c : UnsteadyCache) (key : String) (d : Decision) : Prop where
  text : Holds c key d.json.written
  markers : ∀ role ∈ d.roleIds, ∃ text, Holds c (marker role key) text

lemma HoldsDecision.of_shrunk {c' : UnsteadyCache} (h : HoldsDecision c key d)
    (hs : Shrunk c' c) : HoldsDecision c' key d := by
  refine ⟨hs _ _ h.text, fun role hr => ?_⟩
  obtain ⟨text, htext⟩ := h.markers role hr
  exact ⟨text, hs _ _ htext⟩

lemma putDecision_of_roomy (h : c.Roomy ((Text.sortedDistinct d.roleIds).length + 1 + n))
    (ht : 0 < ttl.nanos) (key : String) (hd : Store.Lasting d now) :
    (putDecision ttl c key d).Roomy n ∧ HoldsDecision (putDecision ttl c key d) key d := by
  have hnot : ¬ d.Swallowed := by
    rintro ⟨b, -, hswallows⟩
    have hwithin := hswallows.within
    have hwhole := hd.whole
    omega
  have hsome := mt (Lifetimes.bounded_eq_none_iff ttl hd.held hd.evaluated).mp hnot
  obtain ⟨left, hleft⟩ := Option.ne_none_iff_exists'.mp hsome
  obtain ⟨hroomy, htext, hmarkers⟩ :=
    write_of_roomy h key d.json.written (Lifetimes.bounded_pos ht hleft)
  simp only [putDecision, hleft]
  exact ⟨hroomy, htext, hmarkers⟩

lemma Unmarked.putDecision (h : Unmarked c role) (hkey : About key principal ctx)
    (hrole : Plain role) (hroles : ∀ r ∈ d.roleIds, Plain r ∧ r ≠ role) :
    Unmarked (putDecision ttl c key d) role := by
  rw [EvaluationCache.putDecision]
  split
  · exact h.write hkey hrole hroles
  · exact h

lemma getDecision_of_holds (h : c.Roomy n) (hheld : HoldsDecision c key d)
    (hd : Store.Lasting d now) : (getDecision c key now).1 = some d := by
  have hdecode : keptDecision.decode = Decision.ofText? := rfl
  refine fetch_of_holds h hheld.text ?_ hd.ahead hheld.markers
  rw [hdecode]
  exact (Decision.ofText?_written_iff hd.held.duration).mpr (hd.held.proper_iff.mpr hd.regular)

end EvaluationCache

namespace Engine

open EvaluationCache (HoldsDecision Unmarked)
open UnsteadyCache (Roomy)

variable {e e' : Engine UnsteadyCache} {request : AccessRequest} {ctx : Context}
  {c c' : UnsteadyCache} {n : Nat} {d : Decision}

section cache

variable {σ : Type} [CacheService σ] {e e' : Engine σ}

lemma effectiveRoles_of_miss {principal : String}
    (hr : e.cachedRoles principal ctx = (none, e')) (ha : e'.store.available = true) :
    e.effectiveRoles principal ctx =
      (.ok (e'.store.effectiveRoles e'.maxDepth principal ctx), e'.keepRoles principal ctx
        (e'.store.effectiveRoles e'.maxDepth principal ctx)) := by
  simp only [effectiveRoles, hr, Store.read_of_available ha]

lemma decide_of_roles {roles : EffectiveRoles}
    (hr : e.effectiveRoles request.principal ctx = (.ok roles, e')) :
    e.decide request ctx =
      (e'.store.decide e'.models roles request ctx e'.freshId.1, e'.freshId.2) := by
  simp only [decide, hr]
  rfl

lemma cache_of_finish (e : Engine σ) (request : AccessRequest) (ctx : Context) (d : Decision)
    (key : String) : (e.finish request ctx d (some key)).2.cache = e.cache.map fun c =>
      EvaluationCache.putDecision e.lifetimes.decisions c key { d with duration := e.elapsed } :=
  rfl

end cache

structure Blank (e e' : Engine UnsteadyCache) (n : Nat) : Prop where
  base : e.SameBase e'
  elapsed : e'.elapsed = e.elapsed
  cache : ∃ c, e'.cache = some c ∧ c.Roomy n ∧ ∀ k v, ¬ Holds c k v

lemma Blank.cachedDecision {e₀ : Engine UnsteadyCache} (h : e₀.Blank e n) (key : String)
    (now : Instant) : ∃ e', e.cachedDecision key now = (none, e') ∧ e₀.Blank e' n := by
  obtain ⟨c, hc, hroomy, hempty⟩ := h.cache
  obtain ⟨c', hmiss, hroomy', hempty'⟩ :=
    EvaluationCache.fetch_of_empty hroomy hempty EvaluationCache.keptDecision key now
  refine ⟨{ e with cache := some c' }.count Metrics.countCacheMiss, ?_,
    h.base.trans ⟨rfl, rfl, rfl⟩, h.elapsed, c', rfl, hroomy', hempty'⟩
  simp only [Engine.cachedDecision, hc, EvaluationCache.getDecision, hmiss]

lemma Blank.cachedRoles {e₀ : Engine UnsteadyCache} (h : e₀.Blank e n) (principal : String)
    (ctx : Context) : ∃ e', e.cachedRoles principal ctx = (none, e') ∧ e₀.Blank e' n := by
  obtain ⟨c, hc, hroomy, hempty⟩ := h.cache
  obtain ⟨c', hmiss, hroomy', hempty'⟩ := EvaluationCache.fetch_of_empty hroomy hempty
    EvaluationCache.keptRoles (CacheKey.roles principal ctx) ctx.now
  refine ⟨{ e with cache := some c' }, ?_, h.base.trans ⟨rfl, rfl, rfl⟩, h.elapsed, c', rfl,
    hroomy', hempty'⟩
  simp only [Engine.cachedRoles, hc, EvaluationCache.getRoles, hmiss]

lemma Blank.decide {e₀ : Engine UnsteadyCache} (h : e₀.Blank e n) (ha : e₀.store.available = true)
    (request : AccessRequest) (ctx : Context) :
    ∃ id d c e', e₀.store.decide e₀.models
        (e₀.store.effectiveRoles e₀.maxDepth request.principal ctx) request ctx id = .ok d ∧
      e.decide request ctx = (.ok d, e') ∧ e'.elapsed = e₀.elapsed ∧ e'.lifetimes = e₀.lifetimes ∧
      c.Roomy n ∧ (∀ k v, ¬ Holds c k v) ∧
      e'.cache = some (EvaluationCache.putRoles e₀.lifetimes.roles c request.principal ctx
        (e₀.store.effectiveRoles e₀.maxDepth request.principal ctx)) := by
  obtain ⟨e₁, hmissed, h₁⟩ := h.cachedRoles request.principal ctx
  obtain ⟨c, hc, hroomy, hempty⟩ := h₁.cache
  have hlifetimes : e₁.lifetimes = e₀.lifetimes := congrArg (·.cache.lifetimes) h₁.base.config
  have hdecide := decide_of_roles
    (effectiveRoles_of_miss hmissed (by rw [h₁.base.store]; exact ha))
  rw [h₁.base.store, h₁.base.maxDepth] at hdecide
  obtain ⟨d, hd, -⟩ := Store.decide_ok ha e₀.models
    (e₀.store.effectiveRoles e₀.maxDepth request.principal ctx) request ctx e₁.freshId.1
  have hd' : e₁.store.decide e₁.models (e₀.store.effectiveRoles e₀.maxDepth request.principal ctx)
      request ctx e₁.freshId.1 = .ok d := by
    rw [h₁.base.store, h₁.base.models]
    exact hd
  refine ⟨_, d, c, _, hd, hdecide.trans (congrArg (·, _) hd'), h₁.elapsed, hlifetimes, hroomy,
    hempty, ?_⟩
  rw [← hlifetimes]
  exact congrArg (Option.map _) hc

lemma Blank.evaluate (h : e.Blank e n) (hm : request.missingField = none)
    (ha : e.store.available = true) (ctx : Context) :
    ∃ id d c, e.store.decide e.models (e.store.effectiveRoles e.maxDepth request.principal ctx)
        request ctx id = .ok d ∧
      (e.evaluate request ctx).1 = .ok { d with duration := e.elapsed } ∧
      c.Roomy n ∧ (∀ k v, ¬ Holds c k v) ∧
      (e.evaluate request ctx).2.cache = some (EvaluationCache.putDecision e.lifetimes.decisions
        (EvaluationCache.putRoles e.lifetimes.roles c request.principal ctx
          (e.store.effectiveRoles e.maxDepth request.principal ctx))
        (CacheKey.decision request ctx) { d with duration := e.elapsed }) := by
  obtain ⟨e₁, hmiss, h₁⟩ := h.cachedDecision (CacheKey.decision request ctx) ctx.now
  obtain ⟨id, d, c, e₂, hd, hdecided, helapsed, hlifetimes, hroomy, hempty, hcache⟩ :=
    h₁.decide ha request ctx
  refine ⟨id, d, c, hd, ?_, hroomy, hempty, ?_⟩
  · rw [evaluate_of_miss hm hmiss hdecided, ← helapsed]
    rfl
  · rw [evaluate_of_miss hm hmiss hdecided, cache_of_finish, hcache, hlifetimes, helapsed]
    rfl

def puts (roles : EffectiveRoles) : Nat :=
  (Text.sortedDistinct roles.names).length + 1 +
    ((Text.sortedDistinct ((RoleSummary.ofRoles roles).map (·.id))).length + 1)

lemma Blank.keeps_denial
    (h : e.Blank e (puts (e.store.effectiveRoles e.maxDepth request.principal ctx)))
    (hm : request.missingField = none) (ha : e.store.available = true) (hs : e.store.Cacheable)
    (hr : request.Clean) (hctx : ctx.Clean) (hk : e.store.Keepable ctx.now)
    (hroles : 0 < e.lifetimes.roles.nanos) (hdecisions : 0 < e.lifetimes.decisions.nanos)
    (helapsed : e.elapsed.seconds < Word.bound)
    (hdenied : ¬ e.store.AllowsNow e.models e.maxDepth request ctx) :
    ∃ c d, (e.evaluate request ctx).2.cache = some c ∧ c.Roomy 0 ∧
      HoldsDecision c (CacheKey.decision request ctx) d ∧ Store.Lasting d ctx.now ∧
      d.allowed = false ∧ ∀ role, Plain role →
        role ∉ (e.store.effectiveRoles e.maxDepth request.principal ctx).names →
          Unmarked c role := by
  obtain ⟨id, d, c, hd, -, hroomy, hempty, hcache⟩ := h.evaluate hm ha ctx
  obtain ⟨d', hd', hallows, -, hsummary⟩ := Store.decide_ok ha e.models
    (e.store.effectiveRoles e.maxDepth request.principal ctx) request ctx id
  obtain rfl := Except.ok.inj (hd'.symm.trans hd)
  have hno : d'.allowed = false := Bool.eq_false_iff.mpr fun hyes => hdenied (hallows.mp hyes)
  have hlasting := hk.lasting hs ha hd hno helapsed
  have hroomy₁ := EvaluationCache.putRoles_of_roomy hroomy hroles request.principal ctx
  have hroom : (Text.sortedDistinct (Decision.roleIds { d' with duration := e.elapsed })).length +
      1 + 0 = (Text.sortedDistinct ((RoleSummary.ofRoles (e.store.effectiveRoles e.maxDepth
        request.principal ctx)).map (·.id))).length + 1 := by
    rw [Decision.roleIds, hsummary]
  rw [← hroom] at hroomy₁
  obtain ⟨hroomy₂, hheld⟩ :=
    EvaluationCache.putDecision_of_roomy hroomy₁ hdecisions (CacheKey.decision request ctx) hlasting
  refine ⟨_, _, hcache, hroomy₂, hheld, hlasting, hno, fun role hplain hrole => ?_⟩
  have hempty' : Unmarked c role := fun key text => hempty _ text
  have hnames : ∀ r ∈ (e.store.effectiveRoles e.maxDepth request.principal ctx).names,
      Plain r ∧ r ≠ role := fun r hr' =>
    ⟨Store.plain_of_mem_names hs r hr', fun he => hrole (he ▸ hr')⟩
  refine (hempty'.putRoles (.roles hr.principal hctx) hplain hnames).putDecision
    (.decision hr hctx) hplain fun r hr' => hnames r ?_
  exact (Store.mem_roleIds_of_decide ha hd).mp hr'

end Engine

end AccessControl
