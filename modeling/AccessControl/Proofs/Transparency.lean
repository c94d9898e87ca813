import AccessControl.Proofs.Bounds
import AccessControl.Proofs.HonestCaches
import AccessControl.Proofs.KeyPatterns
import AccessControl.Proofs.Rereads

/-! A cache that fails at will but is honest changes no verdict. While the store and the instant stay
the same, every text that may stand under a key says what the store says, and an evaluation that is
served it answers as one that asks the store. -/

namespace AccessControl

namespace CacheKey

/-- No other question has the key of this one. -/
structure Separable (r : AccessRequest) (ctx : Context) : Prop where
  plain : ∀ part ∈ decisionParts r ctx, Plain part
  unmarked : ¬ Marked ctx

instance (r : AccessRequest) (ctx : Context) : Decidable (Separable r ctx) :=
  decidable_of_iff ((∀ part ∈ decisionParts r ctx, Plain part) ∧ ¬ Marked ctx)
    ⟨fun h => ⟨h.1, h.2⟩, fun h => ⟨h.1, h.2⟩⟩

variable {r r' : AccessRequest} {ctx ctx' : Context}

lemma Separable.context (h : Separable r ctx) (h' : Separable r' ctx')
    (hc : contextParts ctx' = contextParts ctx) (hn : ctx'.now = ctx.now) : ctx' = ctx := by
  obtain ⟨ho, hg⟩ := contextParts_inj h.unmarked h'.unmarked hc
  obtain ⟨organization, group, now⟩ := ctx
  obtain ⟨organization', group', now'⟩ := ctx'
  simp_all

lemma Separable.roles (h : Separable r ctx) (h' : Separable r' ctx') (hn : ctx'.now = ctx.now)
    (he : CacheKey.roles r'.principal ctx' = CacheKey.roles r.principal ctx) :
    r'.principal = r.principal ∧ ctx' = ctx := by
  obtain ⟨hp, hc⟩ := (roles_eq_iff fun part hm => h.plain part (List.mem_append_left _ hm)).mp he
  exact ⟨hp, h.context h' hc hn⟩

lemma Separable.decision (h : Separable r ctx) (h' : Separable r' ctx') (hn : ctx'.now = ctx.now)
    (he : CacheKey.decision r' ctx' = CacheKey.decision r ctx) : r' = r ∧ ctx' = ctx := by
  obtain ⟨hr, hc⟩ := (decision_eq_iff h.plain).mp he
  exact ⟨hr, h.context h' hc hn⟩

end CacheKey

open CacheKey (Separable)

namespace Store

structure Vouches (s : Store) (models : List GrantModel) (maxDepth : Nat) (now : Instant)
    (key text : String) : Prop where
  roles : ∀ {r ctx}, Separable r ctx → ctx.now = now → key = CacheKey.roles r.principal ctx →
    ∀ v, EffectiveRoles.ofText? text = some v →
      (s.effectiveRoles maxDepth r.principal ctx).Alike v
  decisions : ∀ {r ctx}, Separable r ctx → ctx.now = now → key = CacheKey.decision r ctx →
    ∀ d, Decision.ofText? text = some d → (d.allowed = true ↔ s.AllowsNow models maxDepth r ctx)

variable {s : Store} {models : List GrantModel} {maxDepth : Nat} {now : Instant}
  {r : AccessRequest} {ctx : Context}

lemma vouches_marker (s : Store) (models : List GrantModel) (maxDepth : Nat) (now : Instant)
    (role key text : String) : s.Vouches models maxDepth now (CacheKey.marker role key) text := by
  constructor
  · intro r ctx _ _ hk
    exact absurd hk.symm (CacheKey.roles_ne_marker _ _ _ _)
  · intro r ctx _ _ hk
    exact absurd hk.symm (CacheKey.decision_ne_marker _ _ _ _)

lemma vouches_roles (hs : s.Legible) (h : Separable r ctx) :
    s.Vouches models maxDepth ctx.now (CacheKey.roles r.principal ctx)
      (s.effectiveRoles maxDepth r.principal ctx).json.written := by
  constructor
  · intro r' ctx' h' hn hk v hv
    obtain ⟨hp, rfl⟩ := h.roles h' hn hk.symm
    rw [hp]
    exact EffectiveRoles.alike_of_ofText? hs.effectiveRoles hv
  · intro r' ctx' _ _ hk
    exact absurd hk (CacheKey.roles_ne_decision _ _ _ _)

lemma vouches_decision (h : Separable r ctx) {d : Decision}
    (hd : d.allowed = true ↔ s.AllowsNow models maxDepth r ctx) :
    s.Vouches models maxDepth ctx.now (CacheKey.decision r ctx) d.json.written := by
  constructor
  · intro r' ctx' _ _ hk
    exact absurd hk.symm (CacheKey.roles_ne_decision _ _ _ _)
  · intro r' ctx' h' hn hk d' hd'
    obtain ⟨rfl, rfl⟩ := h.decision h' hn hk.symm
    rw [(Decision.alike_of_ofText? hd').allowed]
    exact hd

lemma allows_iff_of_alike (ha : s.available = true) {e e' : EffectiveRoles} (h : e.Alike e')
    (models : List GrantModel) (r : AccessRequest) (ctx : Context) :
    s.Allows models e' r ctx ↔ s.Allows models e r ctx :=
  ⟨fun hallows => hallows.mono ha h.over, fun hallows => hallows.mono ha h.under⟩

end Store

namespace Engine

open EvaluationCache (keptRoles keptDecision)

variable {σ : Type} [CacheService σ] {e e' : Engine σ} {request : AccessRequest} {ctx : Context}
  {now : Instant}

structure Truthful (e : Engine σ) (now : Instant) : Prop where
  available : e.store.available = true
  legible : e.store.Legible
  cache : ∀ c, e.cache = some c → Honest c (e.store.Vouches e.models e.maxDepth now)

lemma Truthful.of_base (h : e.Truthful now) (hb : e.SameBase e')
    (hc : ∀ c, e'.cache = some c → Honest c (e.store.Vouches e.models e.maxDepth now)) :
    e'.Truthful now := by
  refine ⟨hb.store ▸ h.available, hb.store ▸ h.legible, ?_⟩
  rw [hb.store, hb.models, hb.maxDepth]
  exact hc

lemma Truthful.cachedRoles (h : e.Truthful ctx.now) (hs : Separable request ctx) :
    (e.cachedRoles request.principal ctx).2.Truthful ctx.now ∧
      e.SameBase (e.cachedRoles request.principal ctx).2 ∧
      ∀ v, (e.cachedRoles request.principal ctx).1 = some v →
        (e.store.effectiveRoles e.maxDepth request.principal ctx).Alike v := by
  unfold Engine.cachedRoles
  split
  · exact ⟨h, .refl e, by simp⟩
  · rename_i c hc
    obtain ⟨hfetch, hgood⟩ :=
      (h.cache c hc).fetch keptRoles (CacheKey.roles request.principal ctx) ctx.now
    refine ⟨h.of_base ⟨rfl, rfl, rfl⟩ ?_, ⟨rfl, rfl, rfl⟩, fun v hv => ?_⟩
    · intro c' hc'
      obtain rfl := Option.some.inj hc'
      exact hfetch
    · obtain ⟨text, ht, hv⟩ := hgood v hv
      exact ht.roles hs rfl rfl v hv

lemma Truthful.cachedDecision (h : e.Truthful ctx.now) (hs : Separable request ctx) :
    (e.cachedDecision (CacheKey.decision request ctx) ctx.now).2.Truthful ctx.now ∧
      e.SameBase (e.cachedDecision (CacheKey.decision request ctx) ctx.now).2 ∧
      ∀ d, (e.cachedDecision (CacheKey.decision request ctx) ctx.now).1 = some d →
        (d.allowed = true ↔ e.store.AllowsNow e.models e.maxDepth request ctx) := by
  unfold Engine.cachedDecision
  split
  · exact ⟨h, .refl e, by simp⟩
  · rename_i c hc
    obtain ⟨hfetch, hgood⟩ :=
      (h.cache c hc).fetch keptDecision (CacheKey.decision request ctx) ctx.now
    cases hg : EvaluationCache.getDecision c (CacheKey.decision request ctx) ctx.now with
    | mk found c' =>
      rw [← EvaluationCache.getDecision, hg] at hfetch hgood
      have hcache : ∀ c'', some c' = some c'' →
          Honest c'' (e.store.Vouches e.models e.maxDepth ctx.now) := by
        intro c'' hc''
        obtain rfl := Option.some.inj hc''
        exact hfetch
      cases found with
      | none => exact ⟨h.of_base ⟨rfl, rfl, rfl⟩ hcache, ⟨rfl, rfl, rfl⟩, by simp⟩
      | some d =>
        refine ⟨h.of_base ⟨rfl, rfl, rfl⟩ hcache, ⟨rfl, rfl, rfl⟩, fun d' hd' => ?_⟩
        obtain rfl := Option.some.inj hd'
        obtain ⟨text, ht, hd⟩ := hgood d rfl
        exact ht.decisions hs rfl rfl d hd

lemma Truthful.keepRoles (h : e.Truthful ctx.now) (hs : Separable request ctx) :
    (e.keepRoles request.principal ctx
      (e.store.effectiveRoles e.maxDepth request.principal ctx)).Truthful ctx.now := by
  refine h.of_base ⟨rfl, rfl, rfl⟩ fun c' hc' => ?_
  obtain ⟨c, hc, rfl⟩ := Option.map_eq_some_iff.mp hc'
  unfold EvaluationCache.putRoles
  split
  · exact (h.cache c hc).write (fun role => Store.vouches_marker _ _ _ _ role _ _)
      (Store.vouches_roles h.legible hs) _ _
  · exact h.cache c hc

lemma Truthful.keepDecision (h : e.Truthful ctx.now) (hs : Separable request ctx) {d : Decision}
    (hd : d.allowed = true ↔ e.store.AllowsNow e.models e.maxDepth request ctx) :
    (e.keepDecision (CacheKey.decision request ctx) d).Truthful ctx.now := by
  refine h.of_base ⟨rfl, rfl, rfl⟩ fun c' hc' => ?_
  obtain ⟨c, hc, rfl⟩ := Option.map_eq_some_iff.mp hc'
  unfold EvaluationCache.putDecision
  split
  · exact (h.cache c hc).write (fun role => Store.vouches_marker _ _ _ _ role _ _)
      (Store.vouches_decision hs hd) _ _
  · exact h.cache c hc

lemma Truthful.effectiveRoles (h : e.Truthful ctx.now) (hs : Separable request ctx) :
    ∃ v, (e.effectiveRoles request.principal ctx).1 = .ok v ∧
      (∀ models, e.store.Allows models v request ctx ↔
        e.store.AllowsNow models e.maxDepth request ctx) ∧
      (e.effectiveRoles request.principal ctx).2.Truthful ctx.now ∧
      e.SameBase (e.effectiveRoles request.principal ctx).2 := by
  obtain ⟨hk, hb, hserved⟩ := h.cachedRoles hs
  rw [Engine.effectiveRoles]
  split
  · rename_i v e' hc
    rw [hc] at hk hb hserved
    exact ⟨v, rfl, fun models => Store.allows_iff_of_alike h.available (hserved v rfl) _ _ _, hk, hb⟩
  · rename_i e' hc
    rw [hc] at hk hb
    rw [Store.read_of_available hk.available]
    refine ⟨_, rfl, ?_, hk.keepRoles hs, hb.trans ⟨rfl, rfl, rfl⟩⟩
    rw [hb.store, hb.maxDepth]
    exact fun models => Iff.rfl

lemma Truthful.decide (h : e.Truthful ctx.now) (hs : Separable request ctx) :
    ∃ d, (e.decide request ctx).1 = .ok d ∧
      (d.allowed = true ↔ e.store.AllowsNow e.models e.maxDepth request ctx) ∧
      (e.decide request ctx).2.Truthful ctx.now ∧ e.SameBase (e.decide request ctx).2 := by
  obtain ⟨v, hv, hallows, hk, hb⟩ := h.effectiveRoles hs
  cases he : e.effectiveRoles request.principal ctx with
  | mk roles e' =>
    rw [he] at hv hk hb
    obtain rfl : roles = .ok v := hv
    obtain ⟨d, hd, hallowed, -⟩ := Store.decide_ok h.available e.models v request ctx e'.freshId.1
    refine ⟨d, ?_, hallowed.trans (hallows e.models), ?_⟩
    · simp only [Engine.decide, he]
      change e'.store.decide e'.models v request ctx e'.freshId.1 = .ok d
      rw [hb.store, hb.models, hd]
    · simp only [Engine.decide, he]
      exact ⟨hk.of_base ⟨rfl, rfl, rfl⟩ hk.cache, hb.trans ⟨rfl, rfl, rfl⟩⟩

lemma Truthful.evaluate (h : e.Truthful ctx.now) (hs : Separable request ctx) :
    (e.evaluate request ctx).2.Truthful ctx.now ∧ e.SameBase (e.evaluate request ctx).2 ∧
      ∃ d, (e.evaluate request ctx).1 = .ok d ∧ (d.allowed = true ↔
        request.missingField = none ∧ e.store.AllowsNow e.models e.maxDepth request ctx) := by
  cases hm : request.missingField with
  | some field =>
    rw [evaluate_of_missing hm]
    exact ⟨h.of_base ⟨rfl, rfl, rfl⟩ h.cache, ⟨rfl, rfl, rfl⟩, _, rfl, by simp⟩
  | none =>
    obtain ⟨hk, hb, hserved⟩ := h.cachedDecision hs
    cases hc : e.cachedDecision (CacheKey.decision request ctx) ctx.now with
    | mk found e' =>
      rw [hc] at hk hb hserved
      cases found with
      | some d =>
        rw [evaluate_of_hit hm hc]
        exact ⟨hk.of_base ⟨rfl, rfl, rfl⟩ hk.cache, hb.trans ⟨rfl, rfl, rfl⟩, _, rfl,
          by simpa using hserved d rfl⟩
      | none =>
        obtain ⟨d, hok, hallowed, hk', hb'⟩ := hk.decide hs
        cases he : e'.decide request ctx with
        | mk result e'' =>
          rw [he] at hok hk' hb'
          obtain rfl : result = .ok d := hok
          have hbase := hb.trans hb'
          have hallows : d.allowed = true ↔
              e.store.AllowsNow e.models e.maxDepth request ctx := by
            rwa [hb.store, hb.models, hb.maxDepth] at hallowed
          have hkept := hk'.keepDecision hs (d := { d with duration := e''.elapsed })
            (by rw [hbase.store, hbase.models, hbase.maxDepth]; exact hallows)
          rw [evaluate_of_miss hm hc he]
          exact ⟨hkept.of_base ⟨rfl, rfl, rfl⟩ hkept.cache, hbase.trans ⟨rfl, rfl, rfl⟩, _, rfl,
            by simpa using hallows⟩

def afterAll (e : Engine σ) (asked : List (AccessRequest × Context)) : Engine σ :=
  asked.foldl (fun e question => (e.evaluate question.1 question.2).2) e

lemma Truthful.afterAll (h : e.Truthful now) {asked : List (AccessRequest × Context)}
    (hs : ∀ q ∈ asked, Separable q.1 q.2 ∧ q.2.now = now) :
    (e.afterAll asked).Truthful now ∧ e.SameBase (e.afterAll asked) := by
  induction asked generalizing e with
  | nil => exact ⟨h, .refl e⟩
  | cons q asked ih =>
    obtain ⟨⟨hq, rfl⟩, hrest⟩ := List.forall_mem_cons.mp hs
    obtain ⟨hk, hb, -⟩ := h.evaluate hq
    obtain ⟨hk', hb'⟩ := ih hk hrest
    exact ⟨hk', hb.trans hb'⟩

/-- Over a cache that is empty and honest, however often its calls fail, every evaluation at the
instant succeeds and allows what it would without a cache. -/
theorem allowed_eq_uncached_of_honest {c : σ} (hcache : e.cache = some c)
    (hhonest : Honest c fun _ _ => False) (havailable : e.store.available = true)
    (hlegible : e.store.Legible) {asked : List (AccessRequest × Context)}
    (hasked : ∀ q ∈ asked, Separable q.1 q.2 ∧ q.2.now = ctx.now) (hs : Separable request ctx) :
    ∃ d d', ((e.afterAll asked).evaluate request ctx).1 = .ok d ∧
      ((e.withCache (none : Option MemoryCache)).evaluate request ctx).1 = .ok d' ∧
      d.allowed = d'.allowed := by
  have hstart : e.Truthful ctx.now := by
    refine ⟨havailable, hlegible, fun c' hc' => ?_⟩
    obtain rfl := Option.some.inj (hcache.symm.trans hc')
    exact hhonest.mono fun _ _ hf => hf.elim
  obtain ⟨hk, hb⟩ := hstart.afterAll hasked
  obtain ⟨-, -, d, hd, hallowed⟩ := hk.evaluate hs
  rw [hb.store, hb.models, hb.maxDepth] at hallowed
  have huncached : (e.withCache (none : Option MemoryCache)).cache = none := rfl
  cases hm : request.missingField with
  | some field =>
    refine ⟨d, _, hd, congrArg Prod.fst (evaluate_of_missing hm), ?_⟩
    rw [refuse_allowed, Bool.eq_false_iff]
    simp [hallowed, hm]
  | none =>
    obtain ⟨d', hd', hallowed'⟩ := evaluate_uncached ctx huncached hm havailable
    refine ⟨d, d', hd, hd', Bool.eq_iff_iff.mpr ?_⟩
    rw [hallowed, and_iff_right hm]
    exact hallowed'.symm

def vault : Engine FaultyCache where
  config := .standard
  models := [.named, .direct]
  store :=
    { Store.empty with
      roles := .ofList [.global "reader" "Reader"]
      resourcePermissions := [.typeLevel "p" "reader" "doc" "read"]
      bindings := .ofList [{ Binding.attach "b" .user "ada" (.role "reader") "doc" "acme" with
        caveat := some (Caveat.unconstrained.requireAttribute "clearance" (.string "high")) }]
      attributes := [.ofPrincipal "a" "ada" "clearance" (.string "high")] }
  cache := some ⟨.markerReads, .ofCapacity 8, []⟩
  audit := none
  metrics := none
  ids := ⟨0⟩
  elapsed := .zero

theorem allowed_eq_uncached_vault :
    let read (principal resource : String) : AccessRequest := ⟨principal, "doc", resource, "read"⟩
    let ctx : Context := ⟨some "acme", none, ⟨0, 0⟩⟩
    let asked := [(read "ada" "plan", ctx), (read "bob" "plan", ctx), (read "ada" "map", ctx)]
    ∃ d d', ((vault.afterAll asked).evaluate (read "ada" "plan") ctx).1 = .ok d ∧
      ((vault.withCache (none : Option MemoryCache)).evaluate (read "ada" "plan") ctx).1 = .ok d' ∧
      d.allowed = d'.allowed := by
  intro read ctx asked
  have hlegible : vault.store.Legible := by
    intro b hb c hc
    obtain rfl := List.mem_singleton.mp hb
    obtain rfl := Option.some.inj hc
    refine ⟨by rintro w ⟨⟩, by decide, fun r hr => ?_⟩
    obtain rfl := List.mem_singleton.mp hr
    exact ⟨trivial, trivial⟩
  exact allowed_eq_uncached_of_honest rfl (FaultyCache.honest_ofCapacity .markerReads 8) rfl
    hlegible (by decide) (by decide)

/-- Over a cache that is empty and honest, one of two evaluations at one instant allows what it would not
without a cache: the caveat that it was served holds longer than the one of the store. -/
theorem allowed_ne_uncached_dusk :
    let asked := [(wanting "plan", atDusk)]
    (∃ c, dusk.cache = some c ∧ Honest c fun _ _ => False) ∧ dusk.store.available = true ∧
      dusk.store.attributes = [] ∧
      (∀ b ∈ dusk.store.bindings.rows, ∀ c, b.caveat = some c → c.required = []) ∧
      (∀ q ∈ asked, Separable q.1 q.2 ∧ q.2.now = atDusk.now) ∧
      Separable (wanting "map") atDusk ∧
      ∃ d d', ((dusk.afterAll asked).evaluate (wanting "map") atDusk).1 = .ok d ∧
        ((dusk.withCache (none : Option MemoryCache)).evaluate (wanting "map") atDusk).1 = .ok d' ∧
        d.allowed ≠ d'.allowed := by
  intro asked
  have hhonest : ∃ c, dusk.cache = some c ∧ Honest c fun _ _ => False :=
    ⟨_, rfl, (LosingCache.honest _).mono fun _ _ ⟨_, hm, _⟩ => absurd hm List.not_mem_nil⟩
  obtain ⟨d, hd, ha⟩ := allowed_after_dusk
  obtain ⟨d', hd', ha'⟩ := denied_at_dusk (.refl dusk)
  exact ⟨hhonest, rfl, rfl, required_dusk, by decide, by decide, d, d', hd, hd', by simp [ha, ha']⟩

end Engine

end AccessControl
