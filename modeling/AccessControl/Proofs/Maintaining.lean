import AccessControl.Proofs.Evaluations

/-! What an engine maintains: what it keeps is good for its store in some sense. A write maintains it if
what the announcement does not reach stays good, an evaluation if what it keeps itself is good. -/

namespace AccessControl

open CacheKey (Plain)
open Admin.Operation (Settles)

lemma RoleSummary.mem_ofRoles {e : EffectiveRoles} {id : String} :
    id ∈ (RoleSummary.ofRoles e).map (·.id) ↔ id ∈ e.names := by
  have hadd : ∀ (out : List RoleSummary) (r : EffectiveRole),
      id ∈ (addConditional out r).map (·.id) ↔ id ∈ out.map (·.id) ∨ id = r.role.id := by
    intro out r
    rw [addConditional]
    split
    · rename_i h
      obtain ⟨x, hx, he⟩ := List.any_eq_true.mp h
      refine ⟨Or.inl, ?_⟩
      rintro (h | rfl)
      · exact h
      · exact List.mem_map.mpr ⟨x, hx, by simpa using he⟩
    · simp [ofRole, eq_comm]
  have hfold : ∀ (rs : List EffectiveRole) (out : List RoleSummary),
      id ∈ (rs.foldl addConditional out).map (·.id) ↔
        id ∈ out.map (·.id) ∨ id ∈ rs.map (·.role.id) := by
    intro rs
    induction rs with
    | nil => simp
    | cons r rs ih =>
      intro out
      rw [List.foldl_cons, ih, hadd, List.map_cons, List.mem_cons, or_assoc]
  rw [ofRoles, hfold, EffectiveRoles.names, EffectiveRoles.all, List.map_append, List.mem_append,
    List.map_map]
  exact Iff.rfl

namespace Store

variable {s : Store} {models : List GrantModel} {maxDepth : Nat} {principal : String}
  {request : AccessRequest} {ctx : Context} {v : EffectiveRoles} {d d' : Decision}

lemma plain_of_mem_names (hs : s.Cacheable) :
    ∀ role ∈ (s.effectiveRoles maxDepth principal ctx).names, Plain role := by
  intro id hid
  obtain ⟨role, hget, -⟩ := usable_of_mem_names hid
  obtain ⟨hm, rfl⟩ := Table.get?_eq_some.mp hget
  exact hs.roles role hm

lemma mem_roleIds_of_decide (ha : s.available = true) {id : String}
    (hd : s.decide models v request ctx id = .ok d) {role : String} :
    role ∈ d.roleIds ↔ role ∈ v.names := by
  obtain ⟨d₀, hd₀, -, -, hroles⟩ := decide_ok ha models v request ctx id
  obtain rfl := Except.ok.inj (hd₀.symm.trans hd)
  rw [Decision.roleIds, hroles, RoleSummary.mem_ofRoles]

structure Spares (R : Store → Nat → String → Context → EffectiveRoles → Prop)
    (D : Store → List GrantModel → Nat → AccessRequest → Context → Decision → Prop) (s s' : Store)
    (changes : List Change) : Prop where
  available : s'.available = true
  cacheable : s'.Cacheable
  roles : ∀ {maxDepth principal ctx v}, R s maxDepth principal ctx v →
    (∀ c ∈ changes, ¬ Reached (s'.staleItems maxDepth c) v.names principal ctx) →
      R s' maxDepth principal ctx v
  decisions : ∀ {models maxDepth request ctx d}, D s models maxDepth request ctx d →
    (∀ c ∈ changes, ¬ Reached (s'.staleItems maxDepth c) d.roleIds request.principal ctx) →
      D s' models maxDepth request ctx d

end Store

namespace Engine

variable {σ : Type} [LosingCache σ]

structure Maintains (e : Engine σ) (R : Store → Nat → String → Context → EffectiveRoles → Prop)
    (D : Store → List GrantModel → Nat → AccessRequest → Context → Decision → Prop) : Prop where
  available : e.store.available = true
  cacheable : e.store.Cacheable
  keeps : e.Keeps (R e.store e.maxDepth) (D e.store e.models e.maxDepth)

variable {e e' : Engine σ} {R : Store → Nat → String → Context → EffectiveRoles → Prop}
  {D : Store → List GrantModel → Nat → AccessRequest → Context → Decision → Prop}
  {request : AccessRequest} {ctx : Context}

namespace Maintains

lemma of_sameBase (h : e.Maintains R D) (hb : e.SameBase e')
    (hk : e'.Keeps (R e.store e.maxDepth) (D e.store e.models e.maxDepth)) :
    e'.Maintains R D := by
  refine ⟨hb.store ▸ h.available, hb.store ▸ h.cacheable, ?_⟩
  rwa [hb.store, hb.maxDepth, hb.models]

lemma announce (h : e.Maintains R D) {s : Store} {changes : List Change}
    (hs : e.store.Spares R D s changes) : (e.announce s changes).Maintains R D := by
  have hk := h.keeps.announce hs.available changes
  have hb := e.announce_base s changes
  have hstore : (e.announce s changes).store = s := hb.store
  have hmodels : (e.announce s changes).models = e.models := hb.models
  have hdepth : (e.announce s changes).maxDepth = e.maxDepth := hb.maxDepth
  constructor
  · rw [hstore]
    exact hs.available
  · rw [hstore]
    exact hs.cacheable
  · rw [hstore, hmodels, hdepth]
    exact hk.mono (fun _ hv => hs.roles hv.1 hv.2) fun _ hd => hs.decisions hd.1 hd.2

lemma settles (h : e.Maintains R D) {writes : Store → List Change → Prop} {ids : IdSupply}
    (hsettles : Settles writes { e with ids := ids } e')
    (hs : ∀ s changes, writes s changes → e.store.Spares R D s changes) : e'.Maintains R D := by
  have h' : Maintains { e with ids := ids } R D := h.of_sameBase ⟨rfl, rfl, rfl⟩ (h.keeps.congr rfl)
  rcases hsettles with he | ⟨s, changes, hw, he⟩
  · exact he ▸ h'
  · exact he ▸ h'.announce (hs s changes hw)

lemma evaluate (h : e.Maintains R D) (hr : request.Clean) (hctx : ctx.Clean)
    (hroles : e.StoresRoles (R e.store e.maxDepth) request.principal ctx)
    (hdecisions : e.StoresDecisions (R e.store e.maxDepth) (D e.store e.models e.maxDepth) request
      ctx) : (e.evaluate request ctx).2.Maintains R D := by
  obtain ⟨hk, hb, -⟩ := evaluate_spec h.keeps h.available hr hctx hroles hdecisions
  exact h.of_sameBase hb hk

end Maintains

section stores

omit [LosingCache σ]

variable {R : String → Context → EffectiveRoles → Prop}
  {D : AccessRequest → Context → Decision → Prop} {principal : String}

lemma Drawn.plain {v : EffectiveRoles} (h : e.Drawn R principal ctx v) (hs : e.store.Cacheable) :
    ∀ role ∈ v.names, Plain role := by
  rcases h with ⟨-, hplain, -⟩ | rfl
  · exact hplain
  · exact Store.plain_of_mem_names hs

lemma storesRoles_of (hs : e.store.Cacheable)
    (h : ∀ v, EffectiveRoles.ofText?
      (e.store.effectiveRoles e.maxDepth principal ctx).json.written = some v →
        ∀ t, R principal { ctx with now := t } v) : e.StoresRoles R principal ctx := by
  refine ⟨Store.plain_of_mem_names hs, fun v hv => ⟨?_, h v hv⟩⟩
  rw [(EffectiveRoles.alike_of_ofText? hs.caveats.effectiveRoles hv).names]
  exact Store.plain_of_mem_names hs

lemma storesDecisions_of (hs : e.store.Cacheable) (ha : e.store.available = true)
    (h : ∀ {v id d elapsed d'}, e.Drawn R request.principal ctx v →
      e.store.decide e.models v request ctx id = .ok d →
        Decision.ofText? { d with duration := elapsed }.json.written = some d' →
          ∀ t, D request { ctx with now := t } d') : e.StoresDecisions R D request ctx := by
  intro v id d hv hd
  have hids : ∀ role ∈ d.roleIds, Plain role := fun role hr =>
    hv.plain hs role ((Store.mem_roleIds_of_decide ha hd).mp hr)
  refine ⟨hids, fun elapsed d' hd' => ⟨?_, h hv hd hd'⟩⟩
  rw [(Decision.alike_of_ofText? hd').roleIds]
  exact hids

end stores

end Engine

end AccessControl
