import AccessControl.Engine
import AccessControl.Proofs.Decisions

/-! Without a cache an evaluation is the decision from the roles that the store gives. -/

namespace AccessControl

namespace Store

def AllowsNow (s : Store) (models : List GrantModel) (maxDepth : Nat) (request : AccessRequest)
    (ctx : Context) : Prop :=
  s.Allows models (s.effectiveRoles maxDepth request.principal ctx) request ctx

end Store

namespace Engine

def Grants {σ : Type} (e : Engine σ) (request : AccessRequest) (ctx : Context) : Prop :=
  request.missingField = none ∧ e.store.AllowsNow e.models e.maxDepth request ctx

variable {σ : Type} [CacheService σ] {e : Engine σ} {request : AccessRequest} {ctx : Context}

@[simp]
lemma finish_allowed (e : Engine σ) (request : AccessRequest) (ctx : Context) (d : Decision)
    (key : Option String) : (e.finish request ctx d key).1.allowed = d.allowed := rfl

@[simp]
lemma refuse_allowed (e : Engine σ) (request : AccessRequest) (ctx : Context) (field : String) :
    (e.refuse request ctx field).1.allowed = false := rfl

lemma evaluate_of_missing {field : String} (h : request.missingField = some field) :
    e.evaluate request ctx =
      (.ok (e.refuse request ctx field).1, (e.refuse request ctx field).2) := by
  simp only [evaluate, h]

lemma evaluate_of_hit {e' : Engine σ} {d : Decision} (hm : request.missingField = none)
    (hc : e.cachedDecision (CacheKey.decision request ctx) ctx.now = (some d, e')) :
    e.evaluate request ctx =
      (.ok (e'.finish request ctx d none).1, (e'.finish request ctx d none).2) := by
  simp only [evaluate, hm, hc]

lemma evaluate_of_miss {e' e'' : Engine σ} {d : Decision} (hm : request.missingField = none)
    (hc : e.cachedDecision (CacheKey.decision request ctx) ctx.now = (none, e'))
    (hd : e'.decide request ctx = (.ok d, e'')) :
    e.evaluate request ctx =
      (.ok (e''.finish request ctx d (some (CacheKey.decision request ctx))).1,
        (e''.finish request ctx d (some (CacheKey.decision request ctx))).2) := by
  simp only [evaluate, hm, hc, hd]

lemma evaluate_of_fault {e' e'' : Engine σ} {fault : Fault} (hm : request.missingField = none)
    (hc : e.cachedDecision (CacheKey.decision request ctx) ctx.now = (none, e'))
    (hd : e'.decide request ctx = (.error fault, e'')) :
    (e.evaluate request ctx).1 = .error fault := by
  simp only [evaluate, hm, hc, hd]

lemma cachedDecision_uncached (hc : e.cache = none) (key : String) (now : Instant) :
    e.cachedDecision key now = (none, e) := by
  simp only [cachedDecision, hc]

lemma effectiveRoles_uncached (hc : e.cache = none) (ha : e.store.available = true)
    (principal : String) (ctx : Context) :
    e.effectiveRoles principal ctx =
      (.ok (e.store.effectiveRoles e.maxDepth principal ctx), e) := by
  have hkeep : ∀ roles, e.keepRoles principal ctx roles = e := fun roles => by
    simp only [keepRoles, hc, Option.map_none]
    rw [← hc]
  simp only [effectiveRoles, cachedRoles, hc, Store.read_of_available ha, hkeep]

lemma effectiveRoles_unavailable (hc : e.cache = none) (ha : e.store.available = false)
    (principal : String) (ctx : Context) :
    e.effectiveRoles principal ctx = (.error Store.unavailable, e) := by
  simp [effectiveRoles, cachedRoles, hc, Store.read, Store.call, ha]

lemma decide_uncached (hc : e.cache = none) (request : AccessRequest) (ctx : Context) :
    e.decide request ctx =
      if e.store.available then
        (e.store.decide e.models (e.store.effectiveRoles e.maxDepth request.principal ctx) request
          ctx e.freshId.1, e.freshId.2)
      else (.error Store.unavailable, e) := by
  cases ha : e.store.available with
  | true =>
    simp only [decide, effectiveRoles_uncached hc ha]
    rfl
  | false =>
    simp only [decide, effectiveRoles_unavailable hc ha]
    rfl

lemma decide_alone (hc : e.cache = none) (ha : e.store.available = true)
    (request : AccessRequest) (ctx : Context) :
    ∃ d, e.decide request ctx = (.ok d, e.freshId.2) ∧
      (d.allowed = true ↔ e.store.AllowsNow e.models e.maxDepth request ctx) := by
  obtain ⟨d, hd, hallowed, -, -⟩ := Store.decide_ok ha e.models
    (e.store.effectiveRoles e.maxDepth request.principal ctx) request ctx e.freshId.1
  refine ⟨d, ?_, hallowed⟩
  rw [decide_uncached hc, if_pos ha, hd]

lemma evaluate_uncached (ctx : Context) (hc : e.cache = none) (hm : request.missingField = none)
    (ha : e.store.available = true) :
    ∃ d, (e.evaluate request ctx).1 = .ok d ∧
      (d.allowed = true ↔ e.store.AllowsNow e.models e.maxDepth request ctx) := by
  obtain ⟨d, hdecide, hallowed⟩ := decide_alone hc ha request ctx
  exact ⟨_, congrArg Prod.fst (evaluate_of_miss hm (cachedDecision_uncached hc _ _) hdecide),
    hallowed⟩

lemma evaluate_grants (hc : e.cache = none) (ha : e.store.available = true)
    (request : AccessRequest) (ctx : Context) :
    ∃ d, (e.evaluate request ctx).1 = .ok d ∧ (d.allowed = true ↔ e.Grants request ctx) := by
  cases hm : request.missingField with
  | some field =>
    rw [evaluate_of_missing hm]
    exact ⟨_, rfl, by simp [Grants, hm]⟩
  | none =>
    obtain ⟨d, hd, hallowed⟩ := evaluate_uncached ctx hc hm ha
    exact ⟨d, hd, by simpa [Grants, hm] using hallowed⟩

lemma available_of_evaluate {d : Decision} (hc : e.cache = none) (hm : request.missingField = none)
    (h : (e.evaluate request ctx).1 = .ok d) : e.store.available = true := by
  by_contra ha
  have hdecide : e.decide request ctx = (.error Store.unavailable, e) := by
    rw [decide_uncached hc, if_neg ha]
  rw [evaluate_of_fault hm (cachedDecision_uncached hc _ _) hdecide] at h
  cases h

lemma allowsNow_of_allowed {d : Decision} (hc : e.cache = none)
    (h : (e.evaluate request ctx).1 = .ok d) (hd : d.allowed = true) :
    e.store.available = true ∧ e.store.AllowsNow e.models e.maxDepth request ctx := by
  cases hm : request.missingField with
  | some field =>
    rw [evaluate_of_missing hm] at h
    obtain rfl := Except.ok.inj h
    simp at hd
  | none =>
    have ha := available_of_evaluate hc hm h
    obtain ⟨d', h', hallowed⟩ := evaluate_uncached ctx hc hm ha
    obtain rfl := Except.ok.inj (h.symm.trans h')
    exact ⟨ha, hallowed.mp hd⟩

end Engine

end AccessControl
