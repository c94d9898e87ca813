import AccessControl.Proofs.HonestCaches
import AccessControl.Proofs.KeyPatterns
import AccessControl.Proofs.Upkeep

/-! Evaluations over whatever a store replies. Any call on it may fail, so the roles and the decision
that an evaluation asks for may come to anything. An engine evaluates over the replies of its own
store. -/

namespace AccessControl.Engine

structure Replies where
  roles : Except Fault EffectiveRoles
  decision : EffectiveRoles → String → Except Fault Decision

variable {σ : Type}

def replies (e : Engine σ) (request : AccessRequest) (ctx : Context) : Replies where
  roles := e.store.read (e.store.effectiveRoles e.maxDepth request.principal ctx)
  decision := fun roles id => e.store.decide e.models roles request ctx id

lemma SameBase.replies {e e' : Engine σ} (h : e.SameBase e') : e'.replies = e.replies := by
  funext request ctx
  rw [Engine.replies, Engine.replies, h.store, h.models, h.maxDepth]

variable [CacheService σ]

def effectiveRolesOver (r : Replies) (e : Engine σ) (principal : String) (ctx : Context) :
    Except Fault EffectiveRoles × Engine σ :=
  match e.cachedRoles principal ctx with
  | (some roles, e) => (.ok roles, e)
  | (none, e) =>
    match r.roles with
    | .error fault => (.error fault, e)
    | .ok roles => (.ok roles, e.keepRoles principal ctx roles)

def decideOver (r : Replies) (e : Engine σ) (request : AccessRequest) (ctx : Context) :
    Except Fault Decision × Engine σ :=
  match e.effectiveRolesOver r request.principal ctx with
  | (.error fault, e) => (.error fault, e)
  | (.ok roles, e) =>
    let (id, e) := e.freshId
    (r.decision roles id, e)

def evaluateOver (r : Replies) (e : Engine σ) (request : AccessRequest) (ctx : Context) :
    Except Fault Decision × Engine σ :=
  match request.missingField with
  | some field =>
    let (d, e) := e.refuse request ctx field
    (.ok d, e)
  | none =>
    let key := CacheKey.decision request ctx
    match e.cachedDecision key ctx.now with
    | (some d, e) =>
      let (d, e) := e.finish request ctx d none
      (.ok d, e)
    | (none, e) =>
      match e.decideOver r request ctx with
      | (.error fault, e) => (.error fault, e.count Metrics.countError)
      | (.ok d, e) =>
        let (d, e) := e.finish request ctx d (some key)
        (.ok d, e)

def evaluateIntoOver (principal : String) (ctx : Context) (acc : BulkDecision × Engine σ)
    (check : ResourceCheck × Replies) : BulkDecision × Engine σ :=
  match acc.2.evaluateOver check.2 (check.1.forPrincipal principal) ctx with
  | (.ok d, e) => (acc.1.file check.1 d, e)
  | (.error _, e) =>
    let (id, e) := e.freshId
    (acc.1.file check.1 (.deny id "evaluation error" ctx), e)

def evaluateBulkOver (e : Engine σ) (principal : String) (checks : List (ResourceCheck × Replies))
    (ctx : Context) : BulkDecision × Engine σ :=
  checks.foldl (evaluateIntoOver principal ctx) (.empty principal, e)

def allowedActionsOver (e : Engine σ) (principal type resource : String) (ctx : Context) :
    List (String × Replies) → Except Fault (List String) × Engine σ
  | [] => (.ok [], e)
  | (action, r) :: rest =>
    match e.evaluateOver r ⟨principal, type, resource, action⟩ ctx with
    | (.error fault, e) => (.error fault, e)
    | (.ok d, e) =>
      let (allowed, e) := e.allowedActionsOver principal type resource ctx rest
      (allowed.map fun actions => if d.allowed then action :: actions else actions, e)

variable {e e' e'' : Engine σ}

def Undecided (e e' : Engine σ) : Prop :=
  ∀ c, e.cache = some c → ∃ c', e'.cache = some c' ∧
    CacheUse.Leads (fun key _ => ∀ request ctx, key ≠ CacheKey.decision request ctx) c c'

lemma Undecided.trans (h : e.Undecided e') (h' : e'.Undecided e'') : e.Undecided e'' := by
  intro c hc
  obtain ⟨c', hc', hl⟩ := h c hc
  obtain ⟨c'', hc'', hl'⟩ := h' c' hc'
  exact ⟨c'', hc'', hl.trans hl'⟩

lemma Undecided.of_cache_eq (h : e'.cache = e.cache) : e.Undecided e' :=
  fun c hc => ⟨c, h.trans hc, .refl _ c⟩

structure Draws (e e' : Engine σ) : Prop where
  base : e.SameBase e'
  metrics : e'.metrics = e.metrics
  undecided : e.Undecided e'

lemma Draws.trans (h : e.Draws e') (h' : e'.Draws e'') : e.Draws e'' :=
  ⟨h.base.trans h'.base, h'.metrics.trans h.metrics, h.undecided.trans h'.undecided⟩

lemma draws_cachedRoles (e : Engine σ) (principal : String) (ctx : Context) :
    e.Draws (e.cachedRoles principal ctx).2 := by
  rw [cachedRoles]
  split
  · exact ⟨.refl e, rfl, .of_cache_eq rfl⟩
  · rename_i c hc
    refine ⟨⟨rfl, rfl, rfl⟩, rfl, fun c' hc' => ?_⟩
    obtain rfl := Option.some.inj (hc.symm.trans hc')
    exact ⟨_, rfl, .fetch _ _ _ _ _⟩

lemma draws_keepRoles (e : Engine σ) (principal : String) (ctx : Context)
    (roles : EffectiveRoles) : e.Draws (e.keepRoles principal ctx roles) := by
  refine ⟨⟨rfl, rfl, rfl⟩, rfl, fun c hc => ?_⟩
  refine ⟨EvaluationCache.putRoles e.lifetimes.roles c principal ctx roles,
    congrArg (Option.map _) hc, ?_⟩
  rw [EvaluationCache.putRoles]
  split
  · refine .write c (fun role request ctx' => ?_) (fun request ctx' => ?_) _ _
    · exact (CacheKey.decision_ne_marker request ctx' role _).symm
    · exact CacheKey.roles_ne_decision principal ctx request ctx'
  · exact .refl _ c

lemma draws_effectiveRolesOver (r : Replies) (e : Engine σ) (principal : String)
    (ctx : Context) : e.Draws (e.effectiveRolesOver r principal ctx).2 := by
  have hcached := e.draws_cachedRoles principal ctx
  rw [effectiveRolesOver]
  split
  · rename_i hc
    rwa [hc] at hcached
  · rename_i e' hc
    rw [hc] at hcached
    split
    · exact hcached
    · exact hcached.trans (e'.draws_keepRoles principal ctx _)

lemma draws_decideOver (r : Replies) (e : Engine σ) (request : AccessRequest) (ctx : Context) :
    e.Draws (e.decideOver r request ctx).2 := by
  have hroles := e.draws_effectiveRolesOver r request.principal ctx
  rw [decideOver]
  split
  all_goals
    rename_i hr
    rw [hr] at hroles
    exact hroles.trans ⟨⟨rfl, rfl, rfl⟩, rfl, .of_cache_eq rfl⟩

lemma undecided_cachedDecision (e : Engine σ) (key : String) (now : Instant) :
    e.Undecided (e.cachedDecision key now).2 := by
  intro c hc
  rw [cachedDecision, hc]
  refine ⟨(EvaluationCache.getDecision c key now).2, ?_, .fetch _ _ _ _ _⟩
  simp only
  split <;> rfl

lemma evaluateOver_base (r : Replies) (e : Engine σ) (request : AccessRequest) (ctx : Context) :
    e.SameBase (e.evaluateOver r request ctx).2 := by
  rw [evaluateOver]
  split
  · exact ⟨rfl, rfl, rfl⟩
  · have hcached := e.cachedDecision_base (CacheKey.decision request ctx) ctx.now
    simp only
    split
    · rename_i hc
      rw [hc] at hcached
      exact hcached.trans ⟨rfl, rfl, rfl⟩
    · rename_i e' hc
      have hdecide := (e'.draws_decideOver r request ctx).base
      rw [hc] at hcached
      split
      all_goals
        rename_i hd
        rw [hd] at hdecide
        exact (hcached.trans hdecide).trans ⟨rfl, rfl, rfl⟩

lemma undecided_evaluateOver (r : Replies) (e : Engine σ) (request : AccessRequest)
    (ctx : Context) {fault : Fault} (h : (e.evaluateOver r request ctx).1 = .error fault) :
    e.Undecided (e.evaluateOver r request ctx).2 := by
  have hcached := e.undecided_cachedDecision (CacheKey.decision request ctx) ctx.now
  cases hm : request.missingField with
  | some field => simp [evaluateOver, hm] at h
  | none =>
    rcases hc : e.cachedDecision (CacheKey.decision request ctx) ctx.now with ⟨_ | d, e'⟩
    · have hdecided := (e'.draws_decideOver r request ctx).undecided
      rcases hd : e'.decideOver r request ctx with ⟨fault' | d, e''⟩
      · have he : e.evaluateOver r request ctx = (.error fault', e''.count Metrics.countError) := by
          simp only [evaluateOver, hm, hc, hd]
        rw [hc] at hcached
        rw [hd] at hdecided
        rw [he]
        exact (hcached.trans hdecided).trans (.of_cache_eq rfl)
      · simp [evaluateOver, hm, hc, hd] at h
    · simp [evaluateOver, hm, hc] at h

lemma effectiveRoles_eq (e : Engine σ) (request : AccessRequest) (ctx : Context) :
    e.effectiveRoles request.principal ctx =
      e.effectiveRolesOver (e.replies request ctx) request.principal ctx := by
  have hbase := (e.draws_cachedRoles request.principal ctx).base
  rw [effectiveRoles, effectiveRolesOver]
  cases hc : e.cachedRoles request.principal ctx with
  | mk found e' =>
    rw [hc] at hbase
    rw [← hbase.replies]
    cases found <;> rfl

lemma decide_eq (e : Engine σ) (request : AccessRequest) (ctx : Context) :
    e.decide request ctx = e.decideOver (e.replies request ctx) request ctx := by
  have hbase := (e.draws_effectiveRolesOver (e.replies request ctx) request.principal ctx).base
  rw [decide, decideOver, effectiveRoles_eq]
  cases hr : e.effectiveRolesOver (e.replies request ctx) request.principal ctx with
  | mk found e' =>
    rw [hr] at hbase
    rw [← hbase.replies]
    cases found <;> rfl

lemma evaluate_eq (e : Engine σ) (request : AccessRequest) (ctx : Context) :
    e.evaluate request ctx = e.evaluateOver (e.replies request ctx) request ctx := by
  have hbase := e.cachedDecision_base (CacheKey.decision request ctx) ctx.now
  rw [evaluate, evaluateOver]
  cases request.missingField with
  | some field => rfl
  | none =>
    simp only
    cases hc : e.cachedDecision (CacheKey.decision request ctx) ctx.now with
    | mk found e' =>
      rw [hc] at hbase
      cases found with
      | some d => rfl
      | none =>
        rcases hd : e'.decideOver (e.replies request ctx) request ctx with ⟨_ | d, e''⟩ <;>
          simp only [decide_eq, hbase.replies, hd]

lemma evaluateInto_eq (principal : String) (ctx : Context) (acc : BulkDecision × Engine σ)
    (check : ResourceCheck) : evaluateInto principal ctx acc check =
      evaluateIntoOver principal ctx acc
        (check, acc.2.replies (check.forPrincipal principal) ctx) := by
  rw [evaluateInto, evaluate_eq]
  rfl

lemma evaluateIntoOver_base (principal : String) (ctx : Context) (acc : BulkDecision × Engine σ)
    (check : ResourceCheck × Replies) :
    acc.2.SameBase (evaluateIntoOver principal ctx acc check).2 := by
  have hbase := acc.2.evaluateOver_base check.2 (check.1.forPrincipal principal) ctx
  rw [evaluateIntoOver]
  split
  all_goals
    rename_i he
    rw [he] at hbase
    exact hbase.trans ⟨rfl, rfl, rfl⟩

lemma evaluateBulk_eq (e : Engine σ) (principal : String) (checks : List ResourceCheck)
    (ctx : Context) : e.evaluateBulk principal checks ctx =
      e.evaluateBulkOver principal
        (checks.map fun check => (check, e.replies (check.forPrincipal principal) ctx)) ctx := by
  have hfold : ∀ acc : BulkDecision × Engine σ, e.SameBase acc.2 →
      checks.foldl (evaluateInto principal ctx) acc = (checks.map fun check =>
        (check, e.replies (check.forPrincipal principal) ctx)).foldl
          (evaluateIntoOver principal ctx) acc := by
    induction checks with
    | nil => exact fun _ _ => rfl
    | cons check checks ih =>
      intro acc hbase
      rw [List.foldl_cons, List.map_cons, List.foldl_cons, evaluateInto_eq, hbase.replies]
      exact ih _ (hbase.trans (evaluateIntoOver_base principal ctx acc _))
  exact hfold _ (.refl e)

lemma allowedActions_eq (e : Engine σ) (principal type resource : String) (ctx : Context)
    (actions : List String) : e.allowedActions principal type resource ctx actions =
      e.allowedActionsOver principal type resource ctx (actions.map fun action =>
        (action, e.replies ⟨principal, type, resource, action⟩ ctx)) := by
  induction actions generalizing e with
  | nil => rfl
  | cons action actions ih =>
    have hbase := e.evaluateOver_base (e.replies ⟨principal, type, resource, action⟩ ctx)
      ⟨principal, type, resource, action⟩ ctx
    rw [allowedActions, List.map_cons, allowedActionsOver, evaluate_eq]
    cases he : e.evaluateOver (e.replies ⟨principal, type, resource, action⟩ ctx)
        ⟨principal, type, resource, action⟩ ctx with
    | mk found e' =>
      rw [he] at hbase
      cases found with
      | error fault => rfl
      | ok d => simp only [ih, hbase.replies]

end AccessControl.Engine
