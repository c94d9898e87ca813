import AccessControl.Proofs.Backing
import AccessControl.Proofs.Dangling

/-! At one instant, what is kept in the cache covers the store as long as the store grants no more than
what is kept says. Writes that nothing is waiting for leave it covering the store, so whatever the
store allows is allowed from the cache too. -/

namespace AccessControl

namespace Store

def CoversRoles (s : Store) (maxDepth : Nat) (now : Instant) (principal : String) (ctx : Context)
    (v : EffectiveRoles) : Prop :=
  (s.effectiveRoles maxDepth principal { ctx with now := now }).Under v

structure CoversDecision (s : Store) (models : List GrantModel) (maxDepth : Nat) (now : Instant)
    (request : AccessRequest) (ctx : Context) (d : Decision) : Prop where
  names : ∀ id ∈ (s.effectiveRoles maxDepth request.principal { ctx with now := now }).names,
    id ∈ d.roleIds
  allowed : s.AllowsNow models maxDepth request { ctx with now := now } → d.allowed = true

def GrantsRoles (s : Store) (models : List GrantModel) (maxDepth : Nat) (now : Instant)
    (principal : String) (ctx : Context) (v : EffectiveRoles) : Prop :=
  ctx.Clean → ∀ request : AccessRequest, request.Clean → request.missingField = none →
    request.principal = principal → s.AllowsNow models maxDepth request { ctx with now := now } →
      s.Allows models v request { ctx with now := now }

def GrantsDecision (s : Store) (models : List GrantModel) (maxDepth : Nat) (now : Instant)
    (request : AccessRequest) (ctx : Context) (d : Decision) : Prop :=
  request.Clean → ctx.Clean → request.missingField = none →
    s.AllowsNow models maxDepth request { ctx with now := now } → d.allowed = true

variable {s s' : Store} {models : List GrantModel} {maxDepth : Nat} {now : Instant}
  {principal : String} {request : AccessRequest} {ctx : Context} {v : EffectiveRoles}
  {d d' : Decision} {changes : List Change}

lemma CoversRoles.write (h : s.CoversRoles maxDepth now principal ctx v)
    (hq : s.Quiet now s' changes) (ha : s.available = true)
    (hn : ∀ c ∈ changes, ¬ Reached (s'.staleItems maxDepth c) v.names principal ctx) :
    s'.CoversRoles maxDepth now principal ctx v := by
  have hnarrows : s.Narrows s' [] maxDepth principal { ctx with now := now } :=
    hq.narrows ha (fun _ hid => h.names hid) hn
  exact hnarrows.under.trans h

lemma CoversDecision.write (h : s.CoversDecision models maxDepth now request ctx d)
    (hq : s.Quiet now s' changes) (ha : s.available = true)
    (hn : ∀ c ∈ changes, ¬ Reached (s'.staleItems maxDepth c) d.roleIds request.principal ctx) :
    s'.CoversDecision models maxDepth now request ctx d := by
  have hnarrows : s.Narrows s' models maxDepth request.principal { ctx with now := now } :=
    hq.narrows ha h.names hn
  exact ⟨fun id hid => h.names id (hnarrows.under.names hid),
    fun hallows => h.allowed (hnarrows.allows request rfl hallows)⟩

lemma coversRoles_of_ofText? (hs : s.Cacheable)
    (h : EffectiveRoles.ofText? (s.effectiveRoles maxDepth principal ctx).json.written = some v) :
    s.CoversRoles maxDepth ctx.now principal ctx v :=
  (EffectiveRoles.alike_of_ofText? hs.caveats.effectiveRoles h).under

lemma CoversRoles.allows (hv : s.CoversRoles maxDepth ctx.now request.principal ctx v)
    (ha : s.available = true) (h : s.AllowsNow models maxDepth request ctx) :
    s.Allows models v request ctx :=
  Allows.mono ha h hv

lemma CoversRoles.decision (hv : s.CoversRoles maxDepth ctx.now request.principal ctx v)
    (ha : s.available = true) {id : String} (hd : s.decide models v request ctx id = .ok d)
    {elapsed : Duration}
    (h : Decision.ofText? { d with duration := elapsed }.json.written = some d') :
    s.CoversDecision models maxDepth ctx.now request ctx d' := by
  obtain ⟨d₀, hd₀, hallows, -⟩ := decide_ok ha models v request ctx id
  obtain rfl := Except.ok.inj (hd₀.symm.trans hd)
  have halike := Decision.alike_of_ofText? h
  constructor
  · intro role hrole
    have hids : d'.roleIds = d₀.roleIds := halike.roleIds
    rw [hids]
    exact (mem_roleIds_of_decide ha hd).mpr (hv.names hrole)
  · intro hnow
    exact halike.allowed.trans (hallows.mpr (hv.allows ha hnow))

end Store

namespace Admin.Operation

variable {σ : Type} [CacheService σ] {e : Engine σ}

inductive Arrival
  | role
  | permission
  | group

/-- The operation brings in what rows refer to that count at the instant. -/
def Brings (op : Operation) (e : Engine σ) (now : Instant) : Arrival → Prop
  | .role => e.store.Awakens (op.act e).store now
  | .permission => ∃ row, op = .createPermission row ∧ e.store.AwaitsPermission row.id
  | .group => ∃ row, op = .createGroup row ∧ e.store.AwaitsGroup now row.id

lemma settles_createPermission {now : Instant} {row : Permission}
    (h : ¬ e.store.AwaitsPermission row.id) :
    Settles (e.store.Quiet now) e (Admin.createPermission e row).2 := by
  refine settles_commit fun row' s' hw => ?_
  obtain ⟨rfl, hok⟩ := giving_ok.mp hw
  obtain rfl := Store.read_ok hok
  exact .permission h

lemma settles_createGroup {now : Instant} {row : Group} (h : ¬ e.store.AwaitsGroup now row.id) :
    Settles (e.store.Quiet now) e (Admin.createGroup e row).2 := by
  refine settles_commit fun row' s' hw => ?_
  obtain ⟨rfl, hok⟩ := giving_ok.mp hw
  obtain ⟨-, rfl⟩ := Store.insertGroup_ok hok
  exact .group h

lemma settles_createBinding {now : Instant} {row : Binding}
    (hc : ∀ c, row.caveat = some c → c.Codable) :
    Settles (e.store.Quiet now) e (Admin.createBinding e row).2 := by
  refine settles_commit fun row' s' hw => ?_
  obtain ⟨rfl, hok⟩ := giving_ok.mp hw
  obtain rfl := Store.read_ok hok
  exact .binding hc

end Admin.Operation

namespace Engine

open Admin (Operation)
open Admin.Operation (Arrival Settles)

variable {σ : Type} [LosingCache σ] {e e' : Engine σ} {now : Instant} {request : AccessRequest}
  {ctx : Context}

lemma act_quiet {op : Operation} (hs : e.store.Cacheable) (hp : op.Proper)
    (hb : ∀ arrival, ¬ op.Brings e now arrival) :
    ∃ ids, Settles (e.store.Quiet now) { e with ids := ids } (op.act e) := by
  have hannounced : op.Unused e.store → op.Announced →
      ∃ ids, Settles (e.store.Quiet now) { e with ids := ids } (op.act e) := by
    intro hu ha
    obtain ⟨ids, hsettles⟩ := op.act_settles e hs hp hu ha
    refine ⟨ids, hsettles.mono fun s' changes hedit he => .edit hedit ?_⟩
    have hstore : (op.act e).store = s' := by
      rw [he]
      exact (announce_base _ s' changes).store
    exact hstore ▸ hb .role
  cases op with
  | createPermission row =>
    exact ⟨e.ids, Admin.Operation.settles_createPermission
      fun h => hb .permission ⟨row, rfl, h⟩⟩
  | createGroup row =>
    exact ⟨e.ids, Admin.Operation.settles_createGroup fun h => hb .group ⟨row, rfl, h⟩⟩
  | createBinding row => exact ⟨e.ids, Admin.Operation.settles_createBinding hp⟩
  | createRole | updateRole | setRoleParent | deleteRole | assignRole | revokeRole
  | updatePermission | linkPermission | unlinkPermission | grantResource | revokeResource
  | updateBinding | deleteBinding | assignGroupRole | revokeGroupRole | addMember | removeMember
  | addInheritance | putAttribute => exact hannounced trivial trivial

def Covering (e : Engine σ) (now : Instant) : Prop :=
  e.Maintains (fun s maxDepth => s.CoversRoles maxDepth now)
    fun s models maxDepth => s.CoversDecision models maxDepth now

lemma Covering.act (h : e.Covering now) {op : Operation} (hp : op.Proper)
    (hb : ∀ arrival, ¬ op.Brings e now arrival) : (op.act e).Covering now := by
  obtain ⟨ids, hs⟩ := act_quiet h.cacheable hp hb
  refine h.settles hs fun s changes hq => ?_
  exact ⟨hq.available.trans h.available, hq.cacheable h.cacheable,
    fun hv hn => hv.write hq h.available hn, fun hd hn => hd.write hq h.available hn⟩

omit [LosingCache σ] in
lemma coversRoles_of_drawn {principal : String} {v : EffectiveRoles}
    (hv : e.Drawn (e.store.CoversRoles e.maxDepth ctx.now) principal ctx v) :
    e.store.CoversRoles e.maxDepth ctx.now principal ctx v := by
  rcases hv with ⟨hv, -, -⟩ | rfl
  · exact hv
  · exact .refl _

lemma Covering.storesRoles (h : e.Covering ctx.now) (principal : String) :
    e.StoresRoles (e.store.CoversRoles e.maxDepth ctx.now) principal ctx :=
  storesRoles_of h.cacheable fun _ hv _ => Store.coversRoles_of_ofText? h.cacheable hv

lemma Covering.storesDecisions (h : e.Covering ctx.now) (request : AccessRequest) :
    e.StoresDecisions (e.store.CoversRoles e.maxDepth ctx.now)
      (e.store.CoversDecision e.models e.maxDepth ctx.now) request ctx := by
  refine storesDecisions_of h.cacheable h.available fun hv hd hd' _ => ?_
  have hcovers := (coversRoles_of_drawn hv).decision h.available hd hd'
  exact ⟨hcovers.names, hcovers.allowed⟩

lemma Covering.evaluate (h : e.Covering now) (hr : request.Clean) (hctx : ctx.Clean)
    (hn : ctx.now = now) : (e.evaluate request ctx).2.Covering now := by
  subst hn
  exact Maintains.evaluate h hr hctx (h.storesRoles _) (h.storesDecisions _)

/-- Whatever is allowed at the instant without the cache is allowed with it. -/
def Prompt (e : Engine σ) (now : Instant) : Prop :=
  ∀ (request : AccessRequest) (ctx : Context) (d : Decision), request.Clean → ctx.Clean →
    ctx.now = now →
    ((e.withCache (none : Option MemoryCache)).evaluate request ctx).1 = .ok d →
      d.allowed = true → ∃ d', (e.evaluate request ctx).1 = .ok d' ∧ d'.allowed = true

lemma prompt_of_keeps (ha : e.store.available = true) (hs : e.store.Cacheable)
    (hk : e.Keeps (e.store.GrantsRoles e.models e.maxDepth now)
      (e.store.GrantsDecision e.models e.maxDepth now)) : e.Prompt now := by
  rintro request ctx d hr hctx rfl hd hallowed
  cases hm : request.missingField with
  | some field =>
    rw [evaluate_of_missing hm] at hd
    obtain rfl := Except.ok.inj hd
    simp at hallowed
  | none =>
    have hnow := (allowsNow_of_allowed (e := e.withCache (none : Option MemoryCache)) rfl hd
      hallowed).2
    have hdrawn : ∀ {v}, e.Drawn (e.store.GrantsRoles e.models e.maxDepth ctx.now)
        request.principal ctx v → e.store.Allows e.models v request ctx := by
      rintro v (⟨hv, -, -⟩ | rfl)
      · exact hv hctx request hr hm rfl hnow
      · exact hnow
    have hroles : e.StoresRoles (e.store.GrantsRoles e.models e.maxDepth ctx.now)
        request.principal ctx := by
      refine storesRoles_of hs fun v hv t _ request' _ _ hp hnow' => ?_
      have hunder := (EffectiveRoles.alike_of_ofText? hs.caveats.effectiveRoles hv).under
      rw [← hp] at hunder
      exact Store.Allows.mono ha hnow' hunder
    have hdecisions : e.StoresDecisions (e.store.GrantsRoles e.models e.maxDepth ctx.now)
        (e.store.GrantsDecision e.models e.maxDepth ctx.now) request ctx := by
      refine storesDecisions_of hs ha fun {v id d₀ _ d'} hv hd₀ hd' _ _ _ _ _ => ?_
      obtain ⟨d₁, hd₁, hallows, -⟩ := Store.decide_ok ha e.models v request ctx id
      obtain rfl := Except.ok.inj (hd₁.symm.trans hd₀)
      exact (Decision.alike_of_ofText? hd').allowed.trans (hallows.mpr (hdrawn hv))
    obtain ⟨-, -, hspec⟩ := evaluate_spec hk ha hr hctx hroles hdecisions
    obtain ⟨d', hd', hanswers⟩ := hspec hm
    refine ⟨d', hd', ?_⟩
    rcases hanswers with ⟨d₀, hgrants, -, he⟩ | ⟨v, id, d₀, hv, hok, he⟩
    · exact he.trans (hgrants hr hctx hm hnow)
    · obtain ⟨d₁, hok', hallows, -⟩ := Store.decide_ok ha e.models v request ctx id
      obtain rfl := Except.ok.inj (hok'.symm.trans hok)
      exact he.trans (hallows.mpr (hdrawn hv))

lemma Covering.prompt (h : e.Covering now) : e.Prompt now := by
  refine prompt_of_keeps h.available h.cacheable (h.keeps.mono ?_ ?_)
  · rintro principal ctx v - hv - request - - rfl hnow
    exact Store.Allows.mono h.available hnow hv
  · exact fun _ hd _ _ _ hnow => hd.allowed hnow

/-- The engines that evaluations at one instant and operations lead to, where operations bring in
nothing that is not tolerated. -/
inductive RunAt (tolerated : Arrival → Prop) (now : Instant) (e₀ : Engine σ) : Engine σ → Prop
  | start : RunAt tolerated now e₀ e₀
  | evaluate {e : Engine σ} {request : AccessRequest} {ctx : Context} :
      RunAt tolerated now e₀ e → request.Clean → ctx.Clean → ctx.now = now →
      RunAt tolerated now e₀ (e.evaluate request ctx).2
  | operate {e : Engine σ} {op : Operation} :
      RunAt tolerated now e₀ e → op.Proper →
      (∀ arrival, op.Brings e now arrival → tolerated arrival) →
      RunAt tolerated now e₀ (op.act e)

lemma RunAt.covering {tolerated : Arrival → Prop} {e₀ : Engine σ} (hs : e₀.Covering now)
    (hnone : ∀ arrival, ¬ tolerated arrival) (h : RunAt tolerated now e₀ e) : e.Covering now := by
  induction h with
  | start => exact hs
  | evaluate _ hr hctx hn ih => exact ih.evaluate hr hctx hn
  | operate _ hp hb ih => exact ih.act hp fun arrival h => hnone arrival (hb arrival h)

end Engine

end AccessControl
