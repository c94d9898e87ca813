import AccessControl.Proofs.Backing
import AccessControl.Proofs.Rereads

/-! No stale permission: in every run of evaluations and announced operations, what is allowed from a
cache that may lose anything is allowed from the store of that moment. -/

namespace AccessControl

namespace Engine

open Admin (Operation)

section cache

variable {σ : Type} [LosingCache σ]

def Backed (e : Engine σ) (now : Instant) : Prop :=
  e.Maintains (fun s maxDepth => s.BacksRoles maxDepth now)
    fun s models maxDepth => s.BacksDecision models maxDepth now

variable {e e' : Engine σ} {now now' : Instant} {request : AccessRequest} {ctx : Context}

lemma Backed.later (h : e.Backed now) (hn : now ≤ now') : e.Backed now' :=
  ⟨h.available, h.cacheable, h.keeps.mono (fun _ hv => hv.later hn) fun _ hd => hd.later hn⟩

lemma Backed.act (h : e.Backed now) {op : Operation} (ha : op.Announced)
    (hp : op.Proper) (hu : op.Unused e.store) : (op.act e).Backed now := by
  obtain ⟨ids, hs⟩ := op.act_settles e h.cacheable hp hu ha
  refine h.settles hs fun s changes he => ?_
  exact ⟨he.available.trans h.available, he.cacheable h.cacheable, fun hv hn => hv.edit he hn,
    fun hd hn => hd.edit h.available he hn⟩

lemma Backed.drawn (h : e.Backed ctx.now) {principal : String} {v : EffectiveRoles}
    (hv : e.Drawn (e.store.BacksRoles e.maxDepth ctx.now) principal ctx v) :
    e.store.BacksRoles e.maxDepth ctx.now principal ctx v := by
  rcases hv with ⟨hv, -, -⟩ | rfl
  · exact hv
  · exact Store.backsRoles_effectiveRoles h.cacheable

lemma Backed.storesRoles (h : e.Backed ctx.now) (principal : String) :
    e.StoresRoles (e.store.BacksRoles e.maxDepth ctx.now) principal ctx :=
  storesRoles_of h.cacheable fun _ hv t => (Store.backsRoles_of_ofText? h.cacheable hv).at t

lemma Backed.storesDecisions (h : e.Backed ctx.now) (request : AccessRequest) :
    e.StoresDecisions (e.store.BacksRoles e.maxDepth ctx.now)
      (e.store.BacksDecision e.models e.maxDepth ctx.now) request ctx :=
  storesDecisions_of h.cacheable h.available fun hv hd hd' _ =>
    (h.drawn hv).decision h.cacheable h.available hd hd'

lemma Backed.evaluate (h : e.Backed now) (hr : request.Clean) (hctx : ctx.Clean)
    (hn : now ≤ ctx.now) : (e.evaluate request ctx).2.Backed ctx.now :=
  Maintains.evaluate (h.later hn) hr hctx ((h.later hn).storesRoles _)
    ((h.later hn).storesDecisions _)

lemma Backed.allowsNow (h : e.Backed now) (hr : request.Clean) (hctx : ctx.Clean)
    (hn : now ≤ ctx.now) {d : Decision} (hd : (e.evaluate request ctx).1 = .ok d)
    (ha : d.allowed = true) : request.missingField = none ∧
      e.store.AllowsNow e.models e.maxDepth request ctx := by
  have h := h.later hn
  obtain ⟨-, -, hspec⟩ := evaluate_spec h.keeps h.available hr hctx
    (h.storesRoles request.principal) (h.storesDecisions request)
  cases hm : request.missingField with
  | some field =>
    rw [evaluate_of_missing hm] at hd
    obtain rfl := Except.ok.inj hd
    simp at ha
  | none =>
    refine ⟨rfl, ?_⟩
    obtain ⟨d', hd', hanswers⟩ := hspec hm
    obtain rfl := Except.ok.inj (hd'.symm.trans hd)
    rcases hanswers with ⟨d₀, hbacked, hbefore, he⟩ | ⟨v, id, d₀, hv, hok, he⟩
    · exact (hbacked (he ▸ ha) ctx.now (Instant.le_refl _) hbefore).of_keeping h.available
    · obtain ⟨d₁, hok', hallows, -⟩ := Store.decide_ok h.available e.models v request ctx id
      obtain rfl := Except.ok.inj (hok'.symm.trans hok)
      have hallows := hallows.mp (he ▸ ha)
      rcases hv with ⟨hv, -, hbefore⟩ | rfl
      · exact hv.allowsNow h.available hbefore hallows
      · exact hallows

/-- The engines that evaluations and announced operations lead to, with an instant that no evaluation
was later than. -/
inductive Run (e₀ : Engine σ) : Instant → Engine σ → Prop
  | start {now : Instant} : Run e₀ now e₀
  | evaluate {now : Instant} {e : Engine σ} {request : AccessRequest} {ctx : Context} :
      Run e₀ now e → request.Clean → ctx.Clean → now ≤ ctx.now →
      Run e₀ ctx.now (e.evaluate request ctx).2
  | operate {now : Instant} {e : Engine σ} {op : Operation} :
      Run e₀ now e → op.Announced → op.Proper → op.Unused e.store → Run e₀ now (op.act e)

lemma Run.backed {e₀ : Engine σ} (hs : ∀ now, e₀.Backed now) {now : Instant} {e : Engine σ}
    (h : Run e₀ now e) : e.Backed now := by
  induction h with
  | start => exact hs _
  | evaluate _ hr hctx hn ih => exact ih.evaluate hr hctx hn
  | operate _ ha hp hu ih => exact ih.act ha hp hu

end cache

/-- Started with an empty cache in memory that may lose anything at any time, the engine never allows
what an evaluation without a cache, on the store of that moment, does not allow. -/
theorem allowed_uncached_of_allowed {e₀ : Engine UnsteadyCache} {capacity : Nat}
    {mishaps : Nat → Mishap} (hcache : e₀.cache = some (.ofCapacity capacity mishaps))
    (havailable : e₀.store.available = true) (hcacheable : e₀.store.Cacheable)
    {now : Instant} {e : Engine UnsteadyCache} (hrun : Run e₀ now e)
    {request : AccessRequest} {ctx : Context} (hrequest : request.Clean) (hctx : ctx.Clean)
    (hnow : now ≤ ctx.now) {d : Decision} (hd : (e.evaluate request ctx).1 = .ok d)
    (hallowed : d.allowed = true) :
    ∃ d', ((e.withCache (none : Option MemoryCache)).evaluate request ctx).1 = .ok d' ∧
      d'.allowed = true := by
  have hstart : ∀ now, e₀.Backed now := fun now =>
    ⟨havailable, hcacheable, keeps_of_empty fun c hc k v hl => by
      obtain rfl := Option.some.inj (hcache.symm.trans hc)
      obtain ⟨entry, hentry, -⟩ := hl
      exact absurd hentry List.not_mem_nil⟩
  have hbacked := hrun.backed hstart
  obtain ⟨hm, hallows⟩ := hbacked.allowsNow hrequest hctx hnow hd hallowed
  have huncached : (e.withCache (none : Option MemoryCache)).cache = none := rfl
  obtain ⟨d', hd', hiff⟩ := evaluate_uncached ctx huncached hm hbacked.available
  exact ⟨d', hd', hiff.mpr hallows⟩

def office : Engine UnsteadyCache where
  config := .standard
  models := [.named, .direct]
  store :=
    { Store.empty with
      roles := .ofList [.global "reader" "Reader"]
      userRoles := [{ UserRole.direct "u" "ada" "reader" with window := .endingAt ⟨60, 0⟩ }]
      resourcePermissions := [.typeLevel "p" "reader" "doc" "read"] }
  cache := some (.ofCapacity 8 fun n => ⟨fun _ => n % 4 == 0, .ofSeconds 1⟩)
  audit := none
  metrics := none
  ids := ⟨0⟩
  elapsed := .zero

theorem allowed_uncached_of_allowed_office :
    let request : AccessRequest := ⟨"ada", "doc", "plan", "read"⟩
    let ctx (seconds : Int) : Context := ⟨some "acme", none, ⟨seconds, 0⟩⟩
    let e := (Operation.revokeRole "ada" "writer").act (office.evaluate request (ctx 0)).2
    (∃ d, (e.evaluate request (ctx 9)).1 = .ok d ∧ d.allowed = true) ∧
      ∃ d, ((e.withCache (none : Option MemoryCache)).evaluate request (ctx 9)).1 = .ok d ∧
        d.allowed = true := by
  intro request ctx e
  have hrequest : request.Clean := by decide
  have hctx : ∀ seconds, (ctx seconds).Clean := by
    intro seconds
    have hclean : (ctx 0).Clean := by decide
    exact hclean.at ⟨seconds, 0⟩
  have hcacheable : office.store.Cacheable := by
    have hroles : office.store.roles.rows = [.global "reader" "Reader"] := rfl
    constructor
    · rw [hroles, List.forall_mem_singleton]
      decide
    · intro u hu
      obtain rfl := List.mem_singleton.mp hu
      refine ⟨.none, fun t ht => ?_⟩
      obtain rfl := Option.some.inj ht
      exact ⟨by decide, by decide⟩
    all_goals exact fun _ h => absurd h List.not_mem_nil
  have hrun : Run office ⟨0, 0⟩ e :=
    .operate (.evaluate .start hrequest (hctx 0) (Instant.le_refl _)) trivial trivial trivial
  have hallowed : ((e.evaluate request (ctx 9)).1.toOption.any (·.allowed)) = true := by
    decide +kernel
  cases hd : (e.evaluate request (ctx 9)).1 with
  | error fault => simp [hd, Except.toOption] at hallowed
  | ok d =>
    have ha : d.allowed = true := by simpa [hd, Except.toOption] using hallowed
    exact ⟨⟨d, rfl, ha⟩, allowed_uncached_of_allowed rfl rfl hcacheable hrun hrequest (hctx 9)
      (by decide) hd ha⟩

/-- From an empty cache, with no number in any caveat or attribute, a role set that was kept allows what
the store denies: the bound of its caveat is an instant that is not read back. -/
theorem allowed_denied_uncached_dusk :
    let e := (dusk.evaluate (wanting "plan") atDusk).2
    (∃ capacity mishaps, dusk.cache = some (.ofCapacity capacity mishaps)) ∧
      dusk.store.available = true ∧ dusk.store.attributes = [] ∧
      (∀ b ∈ dusk.store.bindings.rows, ∀ c, b.caveat = some c → c.required = []) ∧
      Run dusk atDusk.now e ∧ (wanting "map").Clean ∧ atDusk.Clean ∧
      (∃ d, (e.evaluate (wanting "map") atDusk).1 = .ok d ∧ d.allowed = true) ∧
      ∃ d, ((e.withCache (none : Option MemoryCache)).evaluate (wanting "map") atDusk).1 = .ok d ∧
        d.allowed = false := by
  intro e
  have hstart : Run dusk atDusk.now dusk := .start
  have hrun : Run dusk atDusk.now e :=
    hstart.evaluate (by decide) (by decide) (Instant.le_refl _)
  exact ⟨⟨8, _, rfl⟩, rfl, rfl, required_dusk, hrun, by decide, by decide, allowed_after_dusk,
    denied_at_dusk (dusk.evaluate_base _ _)⟩

end Engine

end AccessControl
