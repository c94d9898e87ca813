import AccessControl.Proofs.KeptDenials
import AccessControl.Proofs.Promptness
import AccessControl.Proofs.Transparency

/-! Which arrivals go unnoticed: a role, a permission or a group that is created takes effect at once,
whatever was asked before, unless it lifts a denial that its announcement does not reach. -/

namespace AccessControl

open Admin (Operation bind_ok giving_ok)
open CacheKey (Plain)

inductive Newcomer
  | role (row : Role)
  | permission (row : Permission)
  | group (row : Group)

namespace Newcomer

def operation : Newcomer → Operation
  | role row => .createRole row
  | permission row => .createPermission row
  | group row => .createGroup row

def changes : Newcomer → List Change
  | role row => [.role row.id]
  | permission _ | group _ => []

def entry (n : Newcomer) (s : Store) (maxDepth : Nat) : Except Fault Store :=
  match n with
  | role row => do
    row.validate
    Admin.checkParent s maxDepth row
    s.insertRole row
  | permission row => s.insertPermission row
  | group row => s.insertGroup row

def into (s : Store) : Newcomer → Store
  | role row => { s with roles := s.roles.insert row }
  | permission row => { s with permissions := s.permissions.insert row }
  | group row => { s with groups := s.groups.insert row }

def Literal : Newcomer → Prop
  | role row => Plain row.id ∧ '*' ∉ row.id.toList
  | permission _ | group _ => True

variable {n : Newcomer} {s s' : Store} {models : List GrantModel} {maxDepth : Nat}
  {request : AccessRequest} {ctx : Context}

lemma act_of_entry {σ : Type} [CacheService σ] (e : Engine σ)
    (h : n.entry e.store e.maxDepth = .ok s') : n.operation.act e = e.announce s' n.changes := by
  have hcommit : ∀ {α : Type} {write : Except Fault (α × Store)} {changes : α → List Change}
      {row : α}, write = .ok (row, s') →
        (Admin.commit e write changes).2 = e.announce s' (changes row) := by
    rintro α write changes row rfl
    rfl
  cases n with
  | role row =>
    obtain ⟨_, hvalid, h⟩ := bind_ok.mp h
    obtain ⟨_, hcheck, h⟩ := bind_ok.mp h
    exact hcommit (bind_ok.mpr ⟨_, hvalid, bind_ok.mpr ⟨_, hcheck, giving_ok.mpr ⟨rfl, h⟩⟩⟩)
  | permission row => exact hcommit (giving_ok.mpr ⟨rfl, h⟩)
  | group row => exact hcommit (giving_ok.mpr ⟨rfl, h⟩)

lemma entry_ok (h : n.entry s maxDepth = .ok s') : s' = n.into s := by
  cases n with
  | role row =>
    obtain ⟨-, -, h⟩ := bind_ok.mp h
    obtain ⟨-, -, h⟩ := bind_ok.mp h
    exact (Store.insertRole_ok h).2.2
  | permission row => exact (Store.read_ok h).symm
  | group row => exact (Store.insertGroup_ok h).2

lemma entry_available (h : n.entry s maxDepth = .ok s') (ha : s.available = true) :
    s'.available = true := by
  rw [entry_ok h]
  cases n <;> exact ha

lemma entry_cacheable (h : n.entry s maxDepth = .ok s') (hs : s.Cacheable) (hn : n.Literal) :
    s'.Cacheable := by
  rw [entry_ok h]
  cases n with
  | role row =>
    refine { hs with roles := fun r hr => ?_ }
    rcases Table.mem_insert.mp hr with rfl | ⟨hr, -⟩
    · exact hn.1
    · exact hs.roles r hr
  | permission | group => exact { hs with }

lemma allows_of_entry (h : n.entry s maxDepth = .ok s') (ha : s.available = true)
    {v : EffectiveRoles} (hv : (s.effectiveRoles maxDepth request.principal ctx).Under v)
    (hbefore : s.AllowsNow models maxDepth request ctx)
    (hafter : s'.AllowsNow models maxDepth request ctx) : s'.Allows models v request ctx := by
  have hkept : s.Allows models v request ctx := Store.Allows.mono ha hbefore hv
  have ha' := entry_available h ha
  obtain rfl := entry_ok h
  cases n with
  | role | group => exact (Store.allows_iff ha').mpr ((Store.allows_iff ha).mp hkept)
  | permission => exact Store.Allows.mono ha' hafter hv

/-- Who was denied before is allowed after, and what was found for them is not reached. -/
structure Lifts (n : Newcomer) (s s' : Store) (models : List GrantModel) (maxDepth : Nat)
    (request : AccessRequest) (ctx : Context) : Prop where
  denied : ¬ s.AllowsNow models maxDepth request ctx
  allowed : s'.AllowsNow models maxDepth request ctx
  unreached : ∀ c ∈ n.changes, ¬ Store.Reached (s'.staleItems maxDepth c)
    (s.effectiveRoles maxDepth request.principal ctx).names request.principal ctx

lemma Lifts.of_role {row : Role} (h : (role row).Lifts s s' models maxDepth request ctx) :
    row.id ∉ (s.effectiveRoles maxDepth request.principal ctx).names ∧
      (s'.role? row.id).any (·.isDefault) = false := by
  have hnot := h.unreached (.role row.id) List.mem_cons_self
  refine ⟨fun hid => hnot ⟨.role row.id, List.mem_cons_self, hid⟩, ?_⟩
  by_contra hdefault
  refine hnot ⟨.everything, List.mem_append_right _ ?_, trivial⟩
  simp [Store.stale, Bool.not_eq_false _ ▸ hdefault]

end Newcomer

namespace Store

lemma Reached.of_names {items : List Stale} {names names' : List String} {principal : String}
    {ctx : Context} (h : Reached items names principal ctx)
    (hnames : ∀ id ∈ names, id ∈ names') : Reached items names' principal ctx := by
  obtain ⟨item, hi, hr⟩ := h
  refine ⟨item, hi, ?_⟩
  cases item with
  | role id => exact hnames id hr
  | principal | group | everything => exact hr

end Store

namespace Engine

open UnsteadyCache (calm)
open EvaluationCache (HoldsDecision Unmarked)

section cache

variable {σ : Type} [LosingCache σ] {e : Engine σ} {n : Newcomer} {s' : Store} {now : Instant}

lemma Covering.prompt_newcomer (h : e.Covering now) (hn : n.Literal)
    (hentry : n.entry e.store e.maxDepth = .ok s')
    (hlifts : ∀ request ctx, request.Clean → ctx.Clean → ctx.now = now →
      request.missingField = none → ¬ n.Lifts e.store s' e.models e.maxDepth request ctx) :
    (n.operation.act e).Prompt now := by
  have ha' := Newcomer.entry_available hentry h.available
  have hb := e.announce_base s' n.changes
  have hstore : (e.announce s' n.changes).store = s' := hb.store
  have hmodels : (e.announce s' n.changes).models = e.models := hb.models
  have hdepth : (e.announce s' n.changes).maxDepth = e.maxDepth := hb.maxDepth
  rw [Newcomer.act_of_entry e hentry]
  apply prompt_of_keeps
  · rw [hstore]
    exact ha'
  · rw [hstore]
    exact Newcomer.entry_cacheable hentry h.cacheable hn
  rw [hstore, hmodels, hdepth]
  refine (h.keeps.announce ha' n.changes).mono ?_ ?_
  · rintro principal ctx v - ⟨hv, hn⟩ hctx request hr hm rfl hafter
    have hctx' := hctx.at now
    by_cases hbefore : e.store.AllowsNow e.models e.maxDepth request { ctx with now := now }
    · exact Newcomer.allows_of_entry hentry h.available hv hbefore hafter
    · exact absurd ⟨hbefore, hafter, fun c hc hreached =>
        hn c hc (hreached.of_names fun id hid => hv.names hid)⟩ (hlifts request _ hr hctx' rfl hm)
  · rintro request ctx d - ⟨hd, hn⟩ hr hctx hm hafter
    have hctx' := hctx.at now
    by_cases hbefore : e.store.AllowsNow e.models e.maxDepth request { ctx with now := now }
    · exact hd.allowed hbefore
    · exact absurd ⟨hbefore, hafter, fun c hc hreached =>
        hn c hc (hreached.of_names hd.names)⟩ (hlifts request _ hr hctx' rfl hm)

lemma Covering.afterAll (h : e.Covering now) {asked : List (AccessRequest × Context)}
    (hasked : ∀ q ∈ asked, q.1.Clean ∧ q.2.Clean ∧ q.2.now = now) :
    (e.afterAll asked).Covering now := by
  induction asked generalizing e with
  | nil => exact h
  | cons q asked ih =>
    obtain ⟨⟨hr, hctx, hn⟩, hasked⟩ := List.forall_mem_cons.mp hasked
    exact ih (h.evaluate hr hctx hn) hasked

end cache

lemma afterAll_base {σ : Type} [CacheService σ] (e : Engine σ)
    (asked : List (AccessRequest × Context)) : e.SameBase (e.afterAll asked) := by
  induction asked generalizing e with
  | nil => exact .refl e
  | cons q asked ih => exact (e.evaluate_base q.1 q.2).trans (ih _)

variable {e : Engine UnsteadyCache} {n : Newcomer} {s' : Store} {now : Instant}
  {request : AccessRequest} {ctx : Context} {c : UnsteadyCache} {d : Decision}

lemma holdsDecision_announce (hc : e.cache = some c) {k : Nat} (hroomy : c.Roomy k) {key : String}
    (hheld : HoldsDecision c key d) (hn : n.Literal) (ha : s'.available = true)
    (hrole : ∀ row, n = .role row →
      Unmarked c row.id ∧ (s'.role? row.id).any (·.isDefault) = false) :
    ∃ c', (e.announce s' n.changes).cache = some c' ∧ c'.Roomy k ∧ HoldsDecision c' key d := by
  cases n with
  | permission | group => exact ⟨c, hc, hroomy, hheld⟩
  | role row =>
    obtain ⟨hunmarked, hdefault⟩ := hrole row rfl
    obtain ⟨hroomy', hs⟩ := EvaluationCache.invalidateRole_of_unmarked hroomy hunmarked hn.2
    refine ⟨_, ?_, hroomy', hheld.of_shrunk hs⟩
    have hstale : s'.stale e.maxDepth (.role row.id) = ⟨[.role row.id], some []⟩ := by
      simp [Store.stale, hdefault]
    have hinvalidate : (Engine.invalidate { e with store := s' } (.role row.id)).2.cache =
        some (dropStale s' c (s'.stale e.maxDepth (.role row.id))).2 := by
      simp only [invalidate, hc]
      rfl
    have hdrop : (dropStale s' c ⟨[.role row.id], some []⟩).2 =
        (EvaluationCache.invalidateRole c row.id).2 := by
      simp only [dropStale, Store.read_of_available ha]
      rfl
    rw [hstale, hdrop] at hinvalidate
    exact hinvalidate

lemma not_prompt_of_holds (ha : e.store.available = true) (hr : request.Clean) (hctx : ctx.Clean)
    (hm : request.missingField = none) (hc : e.cache = some c) {k : Nat} (hroomy : c.Roomy k)
    (hheld : HoldsDecision c (CacheKey.decision request ctx) d) (hd : Store.Lasting d ctx.now)
    (hdenied : d.allowed = false) (hallows : e.store.AllowsNow e.models e.maxDepth request ctx) :
    ¬ e.Prompt ctx.now := by
  intro hprompt
  obtain ⟨d', hserved, hsame⟩ :=
    evaluate_of_served hm hc (EvaluationCache.getDecision_of_holds hroomy hheld hd)
  obtain ⟨d₀, huncached, hiff⟩ :=
    evaluate_uncached (e := e.withCache (none : Option MemoryCache)) ctx rfl hm ha
  obtain ⟨d₁, hd₁, hallowed⟩ := hprompt request ctx d₀ hr hctx rfl huncached (hiff.mpr hallows)
  obtain rfl := Except.ok.inj (hd₁.symm.trans hserved)
  exact Bool.false_ne_true ((hsame.trans hdenied).symm.trans hallowed)

lemma not_prompt_of_lifts (ha : e.store.available = true) (hs : e.store.Cacheable)
    (hk : e.store.Keepable ctx.now) (hroles : 0 < e.lifetimes.roles.nanos)
    (hdecisions : 0 < e.lifetimes.decisions.nanos) (helapsed : e.elapsed.seconds < Word.bound)
    (hn : n.Literal) (hentry : n.entry e.store e.maxDepth = .ok s') (hr : request.Clean)
    (hctx : ctx.Clean) (hm : request.missingField = none)
    (hlifts : n.Lifts e.store s' e.models e.maxDepth request ctx) :
    ∃ capacity, ¬ (n.operation.act ((e.withCache
      (some (UnsteadyCache.ofCapacity capacity calm))).afterAll [(request, ctx)])).Prompt
        ctx.now := by
  let room := puts (e.store.effectiveRoles e.maxDepth request.principal ctx)
  let e₀ := e.withCache (some (UnsteadyCache.ofCapacity room calm))
  have hblank : e₀.Blank e₀ room :=
    ⟨.refl e₀, rfl, _, rfl, UnsteadyCache.roomy_ofCapacity room,
      UnsteadyCache.not_holds_ofCapacity room calm⟩
  obtain ⟨c, d, hcache, hroomy, hheld, hlasting, hdenied, hunmarked⟩ :=
    hblank.keeps_denial hm ha hs hr hctx hk hroles hdecisions helapsed hlifts.denied
  generalize he₁ : (e₀.evaluate request ctx).2 = e₁ at hcache
  have hb : e₀.SameBase e₁ := he₁ ▸ e₀.evaluate_base request ctx
  have hact : n.operation.act (e₀.afterAll [(request, ctx)]) = e₁.announce s' n.changes := by
    rw [← he₁]
    refine Newcomer.act_of_entry _ ?_
    change n.entry (e₀.evaluate request ctx).2.store (e₀.evaluate request ctx).2.maxDepth = _
    rw [he₁, hb.store, hb.maxDepth]
    exact hentry
  have ha' := Newcomer.entry_available hentry ha
  have hrole : ∀ row, n = .role row →
      Unmarked c row.id ∧ (s'.role? row.id).any (·.isDefault) = false := by
    rintro row rfl
    obtain ⟨hname, hdefault⟩ := hlifts.of_role
    exact ⟨hunmarked row.id hn.1 hname, hdefault⟩
  obtain ⟨c', hcache', hroomy', hheld'⟩ :=
    holdsDecision_announce hcache hroomy hheld hn ha' hrole
  have hb' := e₁.announce_base s' n.changes
  have hstore : (e₁.announce s' n.changes).store = s' := hb'.store
  have hmodels : (e₁.announce s' n.changes).models = e.models := hb'.models.trans hb.models
  have hdepth : (e₁.announce s' n.changes).maxDepth = e.maxDepth := hb'.maxDepth.trans hb.maxDepth
  refine ⟨room, hact ▸ not_prompt_of_holds ?_ hr hctx hm hcache' hroomy' hheld' hlasting hdenied ?_⟩
  · rw [hstore]
    exact ha'
  · rw [hstore, hmodels, hdepth]
    exact hlifts.allowed

/-- Whatever was asked before and whatever the cache has lost, a role, a permission or a group that is
created takes effect at once exactly if it lifts no denial that its announcement does not reach. -/
theorem prompt_newcomer_iff (ha : e.store.available = true) (hs : e.store.Cacheable)
    (hk : e.store.Keepable now) (hroles : 0 < e.lifetimes.roles.nanos)
    (hdecisions : 0 < e.lifetimes.decisions.nanos) (helapsed : e.elapsed.seconds < Word.bound)
    (hn : n.Literal) (hentry : n.entry e.store e.maxDepth = .ok s') :
    (∀ capacity mishaps asked, (∀ q ∈ asked, q.1.Clean ∧ q.2.Clean ∧ q.2.now = now) →
      (n.operation.act ((e.withCache
        (some (UnsteadyCache.ofCapacity capacity mishaps))).afterAll asked)).Prompt now) ↔
      ∀ request ctx, request.Clean → ctx.Clean → ctx.now = now → request.missingField = none →
        ¬ n.Lifts e.store s' e.models e.maxDepth request ctx := by
  constructor
  · rintro hall request ctx hr hctx rfl hm hlifts
    obtain ⟨capacity, hnot⟩ := not_prompt_of_lifts ha hs hk hroles hdecisions helapsed hn hentry hr
      hctx hm hlifts
    exact hnot (hall capacity calm _ (List.forall_mem_singleton.mpr ⟨hr, hctx, rfl⟩))
  · intro hnone capacity mishaps asked hasked
    let e₀ := e.withCache (some (UnsteadyCache.ofCapacity capacity mishaps))
    have hstart : e₀.Covering now := ⟨ha, hs, keeps_of_empty fun c hc => by
      obtain rfl := Option.some.inj hc
      exact UnsteadyCache.not_holds_ofCapacity capacity mishaps⟩
    have hb := e₀.afterAll_base asked
    have hentry' : n.entry (e₀.afterAll asked).store (e₀.afterAll asked).maxDepth = .ok s' := by
      rw [hb.store, hb.maxDepth]
      exact hentry
    refine (hstart.afterAll hasked).prompt_newcomer hn hentry' ?_
    · rw [hb.store, hb.models, hb.maxDepth]
      exact hnone

end Engine

end AccessControl
