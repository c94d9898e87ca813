import AccessControl.Proofs.Replies

/-! Counters and the audit trail account for every evaluation. Each one begins as a refusal, a hit or
a miss of the decision cache, and comes to a decision, which is counted and handed to the sink, or to an
error, which leaves no trace of a decision. Whatever the sink makes of the events, nothing depends on
it. -/

namespace AccessControl

def AuditSink.acceptAll (sink : AuditSink) (events : List AuditEvent) : AuditSink :=
  events.foldl (fun sink event => (sink.accept event).2) sink

lemma AuditSink.acceptAll_log (capacity : Nat) (kept events : List AuditEvent)
    (h : kept.length + events.length ≤ capacity) :
    acceptAll (.log ⟨capacity, kept⟩) events = .log ⟨capacity, events.reverse ++ kept⟩ := by
  induction events generalizing kept with
  | nil => rfl
  | cons event events ih =>
    rw [List.length_cons] at h
    have hroom : (event :: kept).length ≤ capacity := by
      rw [List.length_cons]
      omega
    calc acceptAll (.log ⟨capacity, kept⟩) (event :: events)
        = acceptAll (.log ⟨capacity, (event :: kept).take capacity⟩) events := rfl
      _ = acceptAll (.log ⟨capacity, event :: kept⟩) events := by
        rw [List.take_of_length_le hroom]
      _ = .log ⟨capacity, events.reverse ++ event :: kept⟩ :=
        ih _ (by rw [List.length_cons]; omega)
      _ = .log ⟨capacity, (event :: events).reverse ++ kept⟩ := by
        rw [List.reverse_cons, List.append_assoc]
        rfl

namespace Metrics

/-- The counters agree with each other, so many events were handed on, and so many evaluations have
begun of which it is open what they come to. -/
structure Balanced (m : Metrics) (events begun : Nat) : Prop where
  decisions : m.allowed + m.denied = m.evaluations
  events : m.evaluations = events
  conditional : m.conditionalGrants ≤ m.allowed
  lookups : m.cacheHits + m.cacheMisses + m.validationDenials = m.evaluations + m.errors + begun

variable {m : Metrics} {events begun : Nat}

lemma balanced_ofWindow (samples : Nat) : (ofWindow samples).Balanced 0 0 :=
  ⟨rfl, rfl, Nat.le_refl 0, rfl⟩

lemma Balanced.hit (h : m.Balanced events begun) : m.countCacheHit.Balanced events (begun + 1) := by
  refine ⟨h.decisions, h.events, h.conditional, ?_⟩
  have := h.lookups
  simp only [countCacheHit]
  omega

lemma Balanced.miss (h : m.Balanced events begun) : m.countCacheMiss.Balanced events (begun + 1) := by
  refine ⟨h.decisions, h.events, h.conditional, ?_⟩
  have := h.lookups
  simp only [countCacheMiss]
  omega

lemma Balanced.refusal (h : m.Balanced events begun) :
    m.countValidationDenial.Balanced events (begun + 1) := by
  refine ⟨h.decisions, h.events, h.conditional, ?_⟩
  have := h.lookups
  simp only [countValidationDenial]
  omega

lemma Balanced.error (h : m.Balanced events (begun + 1)) : m.countError.Balanced events begun := by
  refine ⟨h.decisions, h.events, h.conditional, ?_⟩
  have := h.lookups
  simp only [countError]
  omega

lemma Balanced.decision (h : m.Balanced events (begun + 1)) (d : Duration)
    (allowed conditional : Bool) :
    ((m.sample d).countDecision allowed conditional).Balanced (events + 1) begun := by
  obtain ⟨hdecisions, hevents, hconditional, hlookups⟩ := h
  cases allowed <;> cases conditional <;> constructor <;>
    simp only [countDecision, sample, if_true, if_false, Bool.false_eq_true] <;> omega

end Metrics

namespace Engine

variable {σ : Type}

def withAudit (e : Engine σ) (audit : Option AuditSink) : Engine σ := { e with audit := audit }

def Hands {α : Type} (act : Engine σ → α × Engine σ) (e : Engine σ) (events : List AuditEvent) :
    Prop :=
  ∀ audit, act (e.withAudit audit) =
    ((act e).1, (act e).2.withAudit (audit.map fun sink => sink.acceptAll events))

def Balanced (e : Engine σ) (events begun : Nat) : Prop :=
  e.cache.isSome = true ∧ ∃ m, e.metrics = some m ∧ m.Balanced events begun

def Accounted {α : Type} (act : Engine σ → α × Engine σ) : Prop :=
  ∀ e n, e.Balanced n 0 → ∃ events, Hands act e events ∧ (act e).2.Balanced (n + events.length) 0

section acts

variable {α β : Type} {act : Engine σ → α × Engine σ} {next act' : Engine σ → β × Engine σ}
  {e : Engine σ} {n n' begun begun' : Nat} {events events' : List AuditEvent}

lemma Hands.none (h : ∀ audit, act (e.withAudit audit) = ((act e).1, (act e).2.withAudit audit)) :
    Hands act e [] := by
  intro audit
  rw [h audit]
  cases audit <;> rfl

lemma Hands.followed (h : Hands act e events) (h' : Hands next (act e).2 events')
    (hact : ∀ e₁ e₂, act e₁ = ((act e).1, e₂) → act' e₁ = next e₂) :
    Hands act' e (events ++ events') := by
  intro audit
  rw [hact _ _ (h audit), h' _, hact e (act e).2 rfl, Option.map_map]
  simp [AuditSink.acceptAll, Function.comp_def]

lemma Hands.unique (h : Hands act e events) (h' : Hands act e events') : events = events' := by
  have hsink := (h (some (.log ⟨events.length + events'.length, []⟩))).symm.trans (h' _)
  have hlog := congrArg (fun answered => answered.2.audit) hsink
  simp only [withAudit, Option.map_some, Option.some.injEq] at hlog
  rw [AuditSink.acceptAll_log _ _ _ (by simp), AuditSink.acceptAll_log _ _ _ (by simp)] at hlog
  simpa using hlog

lemma Balanced.count {f : Metrics → Metrics} (h : e.Balanced n begun)
    (hf : ∀ {m : Metrics}, m.Balanced n begun → (f m).Balanced n' begun') :
    (e.count f).Balanced n' begun' := by
  obtain ⟨hc, m, hm, ha⟩ := h
  refine ⟨hc, f m, ?_, hf ha⟩
  rw [Engine.count, hm]
  rfl

lemma accounted_pure (a : α) : Accounted fun e : Engine σ => (a, e) :=
  fun _ _ h => ⟨[], .none fun _ => rfl, h⟩

lemma accounted_freshId : Accounted (@freshId σ) :=
  fun _ _ h => ⟨[], .none fun _ => rfl, h⟩

lemma Accounted.followed (h : Accounted act) (h' : ∀ a, ∃ next : Engine σ → β × Engine σ,
    Accounted next ∧ ∀ e₁ e₂, act e₁ = (a, e₂) → act' e₁ = next e₂) : Accounted act' := by
  intro e n ha
  obtain ⟨events, hhands, ha⟩ := h e n ha
  obtain ⟨next, hnext, hact⟩ := h' (act e).1
  obtain ⟨events', hhands', ha⟩ := hnext (act e).2 _ ha
  refine ⟨events ++ events', hhands.followed hhands' hact, ?_⟩
  rwa [hact e (act e).2 rfl, List.length_append, ← Nat.add_assoc]

lemma Accounted.map (h : Accounted act) (f : α → β) :
    Accounted fun e => (f (act e).1, (act e).2) :=
  h.followed fun a => ⟨fun e => (f a, e), accounted_pure (f a), fun _ _ he => by rw [he]⟩

end acts

variable [CacheService σ] {e : Engine σ} {n begun : Nat}

/-! Only the end of an evaluation looks at the sink. -/

lemma cachedRoles_withAudit (e : Engine σ) (principal : String) (ctx : Context)
    (audit : Option AuditSink) : (e.withAudit audit).cachedRoles principal ctx =
      ((e.cachedRoles principal ctx).1, (e.cachedRoles principal ctx).2.withAudit audit) := by
  rcases e with ⟨config, models, store, _ | c, _, metrics, ids, elapsed⟩ <;> rfl

lemma cachedDecision_withAudit (e : Engine σ) (key : String) (now : Instant)
    (audit : Option AuditSink) : (e.withAudit audit).cachedDecision key now =
      ((e.cachedDecision key now).1, (e.cachedDecision key now).2.withAudit audit) := by
  rcases e with ⟨config, models, store, _ | c, _, metrics, ids, elapsed⟩
  · rfl
  · simp only [withAudit, cachedDecision]
    cases (EvaluationCache.getDecision c key now).1 <;> rfl

lemma effectiveRolesOver_withAudit (r : Replies) (e : Engine σ) (principal : String)
    (ctx : Context) (audit : Option AuditSink) :
    (e.withAudit audit).effectiveRolesOver r principal ctx =
      ((e.effectiveRolesOver r principal ctx).1,
        (e.effectiveRolesOver r principal ctx).2.withAudit audit) := by
  rw [effectiveRolesOver, effectiveRolesOver, cachedRoles_withAudit]
  rcases e.cachedRoles principal ctx with ⟨_ | roles, e'⟩
  · cases r.roles <;> rfl
  · rfl

lemma decideOver_withAudit (r : Replies) (e : Engine σ) (request : AccessRequest) (ctx : Context)
    (audit : Option AuditSink) : (e.withAudit audit).decideOver r request ctx =
      ((e.decideOver r request ctx).1, (e.decideOver r request ctx).2.withAudit audit) := by
  rw [decideOver, decideOver, effectiveRolesOver_withAudit]
  rcases e.effectiveRolesOver r request.principal ctx with ⟨_ | roles, e'⟩ <;> rfl

def eventsOf (request : AccessRequest) (ctx : Context) : Except Fault Decision → List AuditEvent
  | .ok d => [.ofDecision request ctx.organization d]
  | .error _ => []

lemma hands_finish (e : Engine σ) (request : AccessRequest) (ctx : Context) (d : Decision)
    (key : Option String) : Hands (fun e => e.finish request ctx d key) e
      (eventsOf request ctx (.ok (e.finish request ctx d key).1)) := by
  intro audit
  cases key <;> cases audit <;> rfl

lemma hands_evaluateOver (r : Replies) (e : Engine σ) (request : AccessRequest) (ctx : Context) :
    Hands (fun e => e.evaluateOver r request ctx) e
      (eventsOf request ctx (e.evaluateOver r request ctx).1) := by
  intro audit
  simp only [evaluateOver]
  cases request.missingField with
  | some field => cases audit <;> rfl
  | none =>
    simp only [cachedDecision_withAudit]
    rcases e.cachedDecision (CacheKey.decision request ctx) ctx.now with ⟨_ | d, e'⟩
    · simp only [decideOver_withAudit]
      rcases e'.decideOver r request ctx with ⟨fault | d, e''⟩
      · cases audit <;> rfl
      · simp only [hands_finish e'' request ctx d _ audit]
    · simp only [hands_finish e' request ctx d _ audit]

/-! The counters. -/

lemma Balanced.cachedDecision (h : e.Balanced n begun) (key : String) (now : Instant) :
    (e.cachedDecision key now).2.Balanced n (begun + 1) := by
  obtain ⟨c, hc⟩ := Option.isSome_iff_exists.mp h.1
  rw [Engine.cachedDecision, hc]
  simp only
  have h' : ({ e with cache := some (EvaluationCache.getDecision c key now).2 } :
      Engine σ).Balanced n begun := ⟨rfl, h.2⟩
  cases (EvaluationCache.getDecision c key now).1 with
  | none => exact h'.count Metrics.Balanced.miss
  | some d => exact h'.count Metrics.Balanced.hit

lemma Balanced.decideOver (h : e.Balanced n begun) (r : Replies) (request : AccessRequest)
    (ctx : Context) : (e.decideOver r request ctx).2.Balanced n begun := by
  have hdraws := e.draws_decideOver r request ctx
  obtain ⟨c, hc⟩ := Option.isSome_iff_exists.mp h.1
  obtain ⟨c', hc', -⟩ := hdraws.undecided c hc
  refine ⟨Option.isSome_iff_exists.mpr ⟨c', hc'⟩, ?_⟩
  rw [hdraws.metrics]
  exact h.2

lemma Balanced.finish (h : e.Balanced n (begun + 1)) (request : AccessRequest) (ctx : Context)
    (d : Decision) (key : Option String) :
    (e.finish request ctx d key).2.Balanced (n + 1) begun := by
  have hcounted : (e.count fun m => (m.sample e.elapsed).countDecision d.allowed
      d.binding.isSome).Balanced (n + 1) begun :=
    h.count fun ha => ha.decision e.elapsed d.allowed d.binding.isSome
  cases key with
  | none => exact hcounted
  | some key => exact ⟨by simpa [Engine.finish, keepDecision, record] using hcounted.1, hcounted.2⟩

lemma Balanced.evaluateOver (h : e.Balanced n 0) (r : Replies) (request : AccessRequest)
    (ctx : Context) : (e.evaluateOver r request ctx).2.Balanced
      (n + (eventsOf request ctx (e.evaluateOver r request ctx).1).length) 0 := by
  rw [Engine.evaluateOver]
  cases request.missingField with
  | some field => exact (h.count Metrics.Balanced.refusal).finish request ctx _ none
  | none =>
    have hbegun := h.cachedDecision (CacheKey.decision request ctx) ctx.now
    simp only
    rcases hc : e.cachedDecision (CacheKey.decision request ctx) ctx.now with ⟨_ | d, e'⟩
    · rw [hc] at hbegun
      have hdecided := hbegun.decideOver r request ctx
      simp only
      rcases hd : e'.decideOver r request ctx with ⟨fault | d, e''⟩
      · rw [hd] at hdecided
        exact hdecided.count Metrics.Balanced.error
      · rw [hd] at hdecided
        exact hdecided.finish request ctx d (some (CacheKey.decision request ctx))
    · rw [hc] at hbegun
      exact hbegun.finish request ctx d none

/-! Runs. -/

lemma accounted_evaluateOver (r : Replies) (request : AccessRequest) (ctx : Context) :
    Accounted fun e : Engine σ => e.evaluateOver r request ctx :=
  fun e _ h => ⟨_, hands_evaluateOver r e request ctx, h.evaluateOver r request ctx⟩

lemma accounted_evaluateIntoOver (principal : String) (ctx : Context) (filed : BulkDecision)
    (check : ResourceCheck × Replies) :
    Accounted fun e : Engine σ => evaluateIntoOver principal ctx (filed, e) check := by
  refine (accounted_evaluateOver check.2 (check.1.forPrincipal principal) ctx).followed
    fun found => ?_
  cases found with
  | ok d => exact ⟨_, accounted_pure (filed.file check.1 d), fun _ _ he => by
      rw [evaluateIntoOver, he]⟩
  | error fault =>
    refine ⟨_, accounted_freshId.map fun id =>
      filed.file check.1 (.deny id "evaluation error" ctx), fun _ _ he => ?_⟩
    rw [evaluateIntoOver, he]

lemma accounted_evaluateBulkOver (principal : String) (checks : List (ResourceCheck × Replies))
    (ctx : Context) : Accounted fun e : Engine σ => e.evaluateBulkOver principal checks ctx := by
  have hfold (filed : BulkDecision) : Accounted fun e : Engine σ =>
      checks.foldl (evaluateIntoOver principal ctx) (filed, e) := by
    induction checks generalizing filed with
    | nil => exact accounted_pure filed
    | cons check checks ih =>
      exact (accounted_evaluateIntoOver principal ctx filed check).followed fun filed' =>
        ⟨_, ih filed', fun _ _ he => by rw [List.foldl_cons, he]⟩
  exact hfold (.empty principal)

lemma accounted_allowedActionsOver (principal type resource : String) (ctx : Context)
    (actions : List (String × Replies)) : Accounted fun e : Engine σ =>
      e.allowedActionsOver principal type resource ctx actions := by
  induction actions with
  | nil => exact accounted_pure _
  | cons action actions ih =>
    refine (accounted_evaluateOver action.2 ⟨principal, type, resource, action.1⟩ ctx).followed
      fun found => ?_
    cases found with
    | error fault => exact ⟨_, accounted_pure (.error fault), fun _ _ he => by
        rw [allowedActionsOver, he]⟩
    | ok d => exact ⟨_, ih.map (Except.map fun allowed =>
        if d.allowed then action.1 :: allowed else allowed), fun _ _ he => by
          rw [allowedActionsOver, he]⟩

inductive Call
  | evaluate (request : AccessRequest) (ctx : Context) (r : Replies)
  | evaluateBulk (principal : String) (checks : List (ResourceCheck × Replies)) (ctx : Context)
  | allowedActions (principal type resource : String) (actions : List (String × Replies))
    (ctx : Context)

inductive Outcome
  | decision (found : Except Fault Decision)
  | bulk (filed : BulkDecision)
  | actions (allowed : Except Fault (List String))

def Call.make (e : Engine σ) : Call → Outcome × Engine σ
  | .evaluate request ctx r =>
    let (found, e) := e.evaluateOver r request ctx
    (.decision found, e)
  | .evaluateBulk principal checks ctx =>
    let (filed, e) := e.evaluateBulkOver principal checks ctx
    (.bulk filed, e)
  | .allowedActions principal type resource actions ctx =>
    let (allowed, e) := e.allowedActionsOver principal type resource ctx actions
    (.actions allowed, e)

def run (e : Engine σ) : List Call → List Outcome × Engine σ
  | [] => ([], e)
  | call :: calls =>
    let (outcome, e) := call.make e
    let (outcomes, e) := e.run calls
    (outcome :: outcomes, e)

lemma accounted_make (call : Call) : Accounted fun e : Engine σ => call.make e := by
  cases call with
  | evaluate request ctx r => exact (accounted_evaluateOver r request ctx).map _
  | evaluateBulk principal checks ctx =>
    exact (accounted_evaluateBulkOver principal checks ctx).map _
  | allowedActions principal type resource actions ctx =>
    exact (accounted_allowedActionsOver principal type resource ctx actions).map _

lemma accounted_run (calls : List Call) : Accounted fun e : Engine σ => e.run calls := by
  induction calls with
  | nil => exact accounted_pure []
  | cons call calls ih =>
    exact (accounted_make call).followed fun outcome =>
      ⟨_, ih.map (outcome :: ·), fun _ _ he => by rw [run, he]⟩

/-- Over whatever a store replies, the counters of a run tell how many events it hands on. Every
decision is in the event that its evaluation hands on, and an error hands on nothing and keeps no
decision. Calls on an engine are over the replies of its store. -/
theorem evaluations_accounted {samples : Nat} (hc : e.cache.isSome = true)
    (hm : e.metrics = some (.ofWindow samples)) (calls : List Call) :
    (∃! events, Hands (fun e => e.run calls) e events ∧
      ∃ m, (e.run calls).2.metrics = some m ∧ m.allowed + m.denied = m.evaluations ∧
        m.evaluations = events.length ∧ m.conditionalGrants ≤ m.allowed ∧
        m.cacheHits + m.cacheMisses + m.validationDenials = m.evaluations + m.errors) ∧
    (∀ (e : Engine σ) r request ctx,
      (∀ d, (e.evaluateOver r request ctx).1 = .ok d →
        ∃ event, Hands (fun e => e.evaluateOver r request ctx) e [event] ∧
          event.id = d.id ∧ event.allowed = d.allowed ∧ event.reason = d.reason ∧
          event.binding = d.binding ∧ event.cacheHit = d.cacheHit) ∧
      ∀ fault, (e.evaluateOver r request ctx).1 = .error fault →
        Hands (fun e => e.evaluateOver r request ctx) e [] ∧
          e.Undecided (e.evaluateOver r request ctx).2) ∧
    ∀ e : Engine σ,
      (∀ request ctx,
        e.evaluate request ctx = e.evaluateOver (e.replies request ctx) request ctx) ∧
      (∀ principal checks ctx, e.evaluateBulk principal checks ctx =
        e.evaluateBulkOver principal
          (checks.map fun check => (check, e.replies (check.forPrincipal principal) ctx)) ctx) ∧
      ∀ principal type resource ctx actions,
        e.allowedActions principal type resource ctx actions =
          e.allowedActionsOver principal type resource ctx (actions.map fun action =>
            (action, e.replies ⟨principal, type, resource, action⟩ ctx)) := by
  refine ⟨?_, fun e r request ctx => ?_, fun e => ⟨e.evaluate_eq, e.evaluateBulk_eq,
    e.allowedActions_eq⟩⟩
  · have hstart : e.Balanced 0 0 := ⟨hc, _, hm, Metrics.balanced_ofWindow samples⟩
    obtain ⟨events, hhands, -, m, hm', ha⟩ := accounted_run calls e 0 hstart
    refine ⟨events, ⟨hhands, m, hm', ha.decisions, ?_, ha.conditional, ha.lookups⟩,
      fun events' h => h.1.unique hhands⟩
    rw [ha.events, Nat.zero_add]
  · have hhands := hands_evaluateOver r e request ctx
    refine ⟨fun d hd => ?_, fun fault hf => ?_⟩
    · rw [hd] at hhands
      exact ⟨_, hhands, rfl, rfl, rfl, rfl, rfl⟩
    · rw [hf] at hhands
      exact ⟨hhands, undecided_evaluateOver r e request ctx hf⟩

def desk : Engine MemoryCache where
  config := .standard
  models := [.named, .direct]
  store := .empty
  cache := some (.ofCapacity 10)
  audit := some (.log (.ofCapacity 10))
  metrics := some .start
  ids := ⟨0⟩
  elapsed := .zero

def down : Replies := ⟨.error Store.unavailable, fun _ _ => .error Store.unavailable⟩
def up : Replies := ⟨.ok default, fun _ id => .ok (.deny id "no roles assigned" default)⟩

def shift : List Call := [
  .evaluate ⟨"ann", "doc", "1", "read"⟩ default down,
  .allowedActions "ann" "doc" "1" [("read", down), ("write", up)] default,
  .evaluateBulk "ann" [(⟨"doc", "1", ""⟩, up), (⟨"doc", "1", "read"⟩, up)] default]

theorem evaluations_accounted_shift : desk.cache.isSome = true ∧
    desk.metrics = some (.ofWindow 10000) ∧
    ∃ events m, Hands (fun e => e.run shift) desk events ∧ events.length = 2 ∧
      (desk.run shift).2.metrics = some m ∧ m.errors = 2 ∧
      m.cacheHits + m.cacheMisses + m.validationDenials = 4 := by
  have hc : desk.cache.isSome = true := rfl
  have hstart : desk.metrics = some (.ofWindow 10000) := rfl
  obtain ⟨⟨events, ⟨hhands, m, hm, -, hcount, -, hlookups⟩, -⟩, -⟩ :=
    evaluations_accounted hc hstart shift
  have hcounters : (desk.run shift).2.metrics.map (fun m => (m.evaluations, m.errors)) =
      some (2, 2) := by decide +kernel
  rw [hm] at hcounters
  obtain ⟨hevaluations, herrors⟩ := Prod.mk.inj (Option.some.inj hcounters)
  refine ⟨hc, hstart, events, m, hhands, hcount.symm.trans hevaluations, hm, herrors, ?_⟩
  rw [hlookups, hevaluations, herrors]

end Engine

end AccessControl
