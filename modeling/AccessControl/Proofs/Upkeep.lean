import AccessControl.Proofs.Operations
import AccessControl.Proofs.Tracking
import AccessControl.Proofs.Uncached

/-! An engine keeps role sets and decisions that are good in some sense. What an announcement leaves in
the cache is good and was not reached; an evaluation adds what it found itself. -/

namespace AccessControl

namespace Engine

open CacheKey (About Clean Plain)
open EvaluationCache (keptRoles keptDecision)

variable {σ : Type}

structure SameBase (e e' : Engine σ) : Prop where
  store : e'.store = e.store
  config : e'.config = e.config
  models : e'.models = e.models

lemma SameBase.refl (e : Engine σ) : e.SameBase e := ⟨rfl, rfl, rfl⟩

lemma SameBase.trans {e e' e'' : Engine σ} (h : e.SameBase e') (h' : e'.SameBase e'') :
    e.SameBase e'' :=
  ⟨h'.store.trans h.store, h'.config.trans h.config, h'.models.trans h.models⟩

lemma SameBase.maxDepth {e e' : Engine σ} (h : e.SameBase e') : e'.maxDepth = e.maxDepth := by
  rw [Engine.maxDepth, Engine.maxDepth, h.config]

section base

variable [CacheService σ]

lemma invalidate_base (e : Engine σ) (change : Change) : e.SameBase (e.invalidate change).2 := by
  rw [invalidate]
  split <;> exact ⟨rfl, rfl, rfl⟩

lemma cachedDecision_base (e : Engine σ) (key : String) (now : Instant) :
    e.SameBase (e.cachedDecision key now).2 := by
  rw [cachedDecision]
  split
  · exact .refl e
  · simp only
    split <;> exact ⟨rfl, rfl, rfl⟩

lemma cachedRoles_base (e : Engine σ) (principal : String) (ctx : Context) :
    e.SameBase (e.cachedRoles principal ctx).2 := by
  rw [cachedRoles]
  split <;> exact ⟨rfl, rfl, rfl⟩

lemma effectiveRoles_base (e : Engine σ) (principal : String) (ctx : Context) :
    e.SameBase (e.effectiveRoles principal ctx).2 := by
  have hcached := e.cachedRoles_base principal ctx
  rw [effectiveRoles]
  split
  · rename_i hr
    rwa [hr] at hcached
  · rename_i hr
    rw [hr] at hcached
    split <;> exact hcached.trans ⟨rfl, rfl, rfl⟩

lemma decide_base (e : Engine σ) (request : AccessRequest) (ctx : Context) :
    e.SameBase (e.decide request ctx).2 := by
  have hroles := e.effectiveRoles_base request.principal ctx
  rw [decide]
  split
  all_goals
    rename_i hr
    rw [hr] at hroles
    exact hroles.trans ⟨rfl, rfl, rfl⟩

lemma evaluate_base (e : Engine σ) (request : AccessRequest) (ctx : Context) :
    e.SameBase (e.evaluate request ctx).2 := by
  rw [evaluate]
  split
  · exact ⟨rfl, rfl, rfl⟩
  · have hcached := e.cachedDecision_base (CacheKey.decision request ctx) ctx.now
    simp only
    split
    · rename_i hc
      rw [hc] at hcached
      exact hcached.trans ⟨rfl, rfl, rfl⟩
    · rename_i e' hc
      rw [hc] at hcached
      have hdecide := e'.decide_base request ctx
      split
      all_goals
        rename_i hd
        rw [hd] at hdecide
        exact (hcached.trans hdecide).trans ⟨rfl, rfl, rfl⟩

lemma announce_base (e : Engine σ) (s : Store) (changes : List Change) :
    SameBase { e with store := s } (e.announce s changes) := by
  have hfold : ∀ (changes : List Change) {e₀ e' : Engine σ}, e₀.SameBase e' →
      e₀.SameBase (changes.foldl (fun e c => (e.invalidate c).2) e') := by
    intro changes
    induction changes with
    | nil => exact fun h => h
    | cons change changes ih => exact fun h => ih (h.trans (invalidate_base _ change))
  exact hfold changes (.refl _)

lemma config_of_settles {writes : Store → List Change → Prop} {e e' : Engine σ}
    (h : Admin.Operation.Settles writes e e') : e'.config = e.config := by
  rcases h with rfl | ⟨s', changes, -, rfl⟩
  · rfl
  · exact (announce_base e s' changes).config

lemma store_of_settles {writes : Store → List Change → Prop} {e e' : Engine σ}
    (h : Admin.Operation.Settles writes e e') :
    e'.store = e.store ∨ ∃ changes, writes e'.store changes := by
  rcases h with rfl | ⟨s', changes, hw, rfl⟩
  · exact Or.inl rfl
  · refine Or.inr ⟨changes, ?_⟩
    rw [(announce_base e s' changes).store]
    exact hw

lemma store_commit {α : Type} {e : Engine σ} {s : Store} {write : Except Fault (α × Store)}
    {changes : α → List Change} (h : ∃ row, write = .ok (row, s)) :
    (Admin.commit e write changes).2.store = s := by
  obtain ⟨row, rfl⟩ := h
  exact (announce_base e s (changes row)).store

end base

variable [LosingCache σ]

structure Keeps (e : Engine σ) (R : String → Context → EffectiveRoles → Prop)
    (D : AccessRequest → Context → Decision → Prop) : Prop where
  roles : ∀ c, e.cache = some c → ∀ {principal ctx}, Clean principal → ctx.Clean →
    Tracks keptRoles c (CacheKey.roles principal ctx) (R principal ctx)
  decisions : ∀ c, e.cache = some c → ∀ {request ctx}, request.Clean → ctx.Clean →
    Tracks keptDecision c (CacheKey.decision request ctx) (D request ctx)

variable {e e' : Engine σ} {R R' : String → Context → EffectiveRoles → Prop}
  {D D' : AccessRequest → Context → Decision → Prop}

lemma Keeps.congr (h : e.Keeps R D) (hc : e'.cache = e.cache) : e'.Keeps R D :=
  ⟨fun c he => h.roles c (hc ▸ he), fun c he => h.decisions c (hc ▸ he)⟩

lemma Keeps.mono (h : e.Keeps R D)
    (hR : ∀ {principal ctx v}, (∀ role ∈ v.names, Plain role) → R principal ctx v →
      R' principal ctx v)
    (hD : ∀ {request ctx d}, (∀ role ∈ d.roleIds, Plain role) → D request ctx d →
      D' request ctx d) : e.Keeps R' D' :=
  ⟨fun c he _ _ hp hctx => (h.roles c he hp hctx).mono fun _ => hR,
    fun c he _ _ hr hctx => (h.decisions c he hr hctx).mono fun _ => hD⟩

lemma Keeps.of_cache (h : e.Keeps R D) {c c' : σ} (hc : e.cache = some c) (hs : Shrunk c c')
    (hc' : e'.cache = some c') : e'.Keeps R D := by
  constructor
  · intro c'' he principal ctx hp hctx
    obtain rfl := Option.some.inj (hc'.symm.trans he)
    exact (h.roles c hc hp hctx).of_shrunk hs
  · intro c'' he request ctx hr hctx
    obtain rfl := Option.some.inj (hc'.symm.trans he)
    exact (h.decisions c hc hr hctx).of_shrunk hs

lemma keeps_of_empty (h : ∀ c, e.cache = some c → ∀ k v, ¬ LosingCache.Holds c k v) :
    e.Keeps R D :=
  ⟨fun c he _ _ _ _ => .of_empty (h c he), fun c he _ _ _ _ => .of_empty (h c he)⟩

lemma Keeps.invalidate (h : e.Keeps R D) (ha : e.store.available = true) (change : Change) :
    (e.invalidate change).2.Keeps
      (fun principal ctx v => R principal ctx v ∧
        ¬ Store.Reached (e.store.staleItems e.maxDepth change) v.names principal ctx)
      (fun request ctx d => D request ctx d ∧
        ¬ Store.Reached (e.store.staleItems e.maxDepth change) d.roleIds request.principal ctx) := by
  rw [Engine.invalidate]
  split
  · rename_i hc
    exact keeps_of_empty fun c he => by rw [hc] at he; cases he
  · rename_i c hc
    constructor
    · intro c' he principal ctx hp hctx
      obtain rfl := Option.some.inj he
      exact (h.roles c hc hp hctx).dropStale (.roles hp hctx) ha e.maxDepth change
    · intro c' he request ctx hr hctx
      obtain rfl := Option.some.inj he
      exact (h.decisions c hc hr hctx).dropStale (.decision hr hctx) ha e.maxDepth change

lemma Keeps.announce (h : e.Keeps R D) {s : Store} (ha : s.available = true)
    (changes : List Change) :
    (e.announce s changes).Keeps
      (fun principal ctx v => R principal ctx v ∧ ∀ c ∈ changes,
        ¬ Store.Reached (s.staleItems e.maxDepth c) v.names principal ctx)
      (fun request ctx d => D request ctx d ∧ ∀ c ∈ changes,
        ¬ Store.Reached (s.staleItems e.maxDepth c) d.roleIds request.principal ctx) := by
  have hfold : ∀ (changes : List Change) {e' : Engine σ} {R D}, e'.Keeps R D →
      SameBase { e with store := s } e' →
      (changes.foldl (fun e c => (e.invalidate c).2) e').Keeps
        (fun principal ctx v => R principal ctx v ∧ ∀ c ∈ changes,
          ¬ Store.Reached (s.staleItems e.maxDepth c) v.names principal ctx)
        (fun request ctx d => D request ctx d ∧ ∀ c ∈ changes,
          ¬ Store.Reached (s.staleItems e.maxDepth c) d.roleIds request.principal ctx) := by
    intro changes
    induction changes with
    | nil => exact fun h _ => h.mono (fun _ hr => ⟨hr, by simp⟩) fun _ hd => ⟨hd, by simp⟩
    | cons change changes ih =>
      intro e' R D h hb
      have hstore : e'.store = s := hb.store
      have hdepth : e'.maxDepth = e.maxDepth := hb.maxDepth
      have hk := ih (h.invalidate (hstore ▸ ha) change) (hb.trans (invalidate_base e' change))
      rw [hstore, hdepth] at hk
      refine hk.mono (fun _ hr => ?_) fun _ hd => ?_
      · exact ⟨hr.1.1, List.forall_mem_cons.mpr ⟨hr.1.2, hr.2⟩⟩
      · exact ⟨hd.1.1, List.forall_mem_cons.mpr ⟨hd.1.2, hd.2⟩⟩
  exact hfold changes (h.congr rfl) (.refl _)

end Engine

end AccessControl
