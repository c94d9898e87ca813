import AccessControl.Proofs.Resolved
import AccessControl.Proofs.Tables
import AccessControl.Proofs.Uncached

/-! An evaluation in an organization sees no row of another one. The rows that it can see make up a
store of their own, and nothing it does tells that store from the whole. -/

namespace AccessControl

namespace Table

variable {α : Type} [Keyed α]

def filter (t : Table α) (p : α → Bool) : Table α :=
  ⟨t.rows.filter p, t.increasing.filter _⟩

lemma get?_filter (t : Table α) (p : α → Bool) (key : String) :
    (t.filter p).get? key = (t.get? key).filter p := by
  apply Option.ext
  intro row
  rw [Option.filter_eq_some_iff, get?_eq_some, get?_eq_some, filter, List.mem_filter]
  tauto

lemma eq_of_mem_iff {t t' : Table α} (h : ∀ row, row ∈ t.rows ↔ row ∈ t'.rows) : t = t' := by
  obtain ⟨rows, hinc⟩ := t
  obtain ⟨rows', hinc'⟩ := t'
  obtain rfl : rows = rows' := eq_of_increasing hinc hinc' h
  rfl

end Table

namespace Store

def within (s : Store) (organization : String) : Store :=
  { s with
    roles := s.roles.filter (·.visibleIn organization)
    bindings := s.bindings.filter (·.organization == organization)
    attributes := s.attributes.filter (·.visibleIn organization) }

/-- The stores differ in nothing but rows of other organizations. -/
structure SameWithin (organization : String) (s s' : Store) : Prop where
  roles : ∀ r : Role, r.visibleIn organization = true → (r ∈ s.roles.rows ↔ r ∈ s'.roles.rows)
  bindings : ∀ b : Binding, b.organization = organization →
    (b ∈ s.bindings.rows ↔ b ∈ s'.bindings.rows)
  attributes : s.attributes.filter (·.visibleIn organization) =
    s'.attributes.filter (·.visibleIn organization)
  others : { s' with roles := s.roles, bindings := s.bindings, attributes := s.attributes } = s

variable {s s' : Store} {organization : String} {ctx : Context}

lemma SameWithin.within (h : SameWithin organization s s') :
    s.within organization = s'.within organization := by
  have hroles : s.roles.filter (·.visibleIn organization) =
      s'.roles.filter (·.visibleIn organization) := by
    apply Table.eq_of_mem_iff
    intro r
    simp only [Table.filter, List.mem_filter]
    exact and_congr_left (h.roles r)
  have hbindings : s.bindings.filter (·.organization == organization) =
      s'.bindings.filter (·.organization == organization) := by
    apply Table.eq_of_mem_iff
    intro b
    simp only [Table.filter, List.mem_filter, beq_iff_eq]
    exact and_congr_left (h.bindings b)
  rw [Store.within, hroles, hbindings, h.attributes, ← h.others]
  rfl

lemma role?_within (s : Store) (organization id : String) :
    (s.within organization).role? id = (s.role? id).filter (·.visibleIn organization) :=
  Table.get?_filter _ _ _

lemma step_within (s : Store) (organization : String) (maxDepth : Nat) :
    ChainWalk.step (s.within organization) maxDepth (some organization) =
      ChainWalk.step s maxDepth (some organization) := by
  funext w
  rw [ChainWalk.step, ChainWalk.step]
  cases w.current with
  | none => rfl
  | some next =>
    simp only [role?_within]
    cases hr : s.role? next.1 with
    | none => rfl
    | some role =>
      by_cases hv : role.visibleIn organization = true
      · rw [Option.filter_some, if_pos hv]
      · rw [Option.filter_some, if_neg hv]
        simp [Role.visibleTo, hv]

lemma withChain_within (s : Store) (organization : String) (maxDepth : Nat) (c : Collected)
    (role : String) (via : Provenance) :
    c.withChain (s.within organization) maxDepth (some organization) role via =
      c.withChain s maxDepth (some organization) role via := by
  rw [Collected.withChain, Collected.withChain, step_within]

lemma collectUserRole_within (s : Store) (h : ctx.organization = some organization)
    (maxDepth : Nat) (groups : List String) :
    (s.within organization).collectUserRole maxDepth groups ctx =
      s.collectUserRole maxDepth groups ctx := by
  funext c u
  simp only [collectUserRole, h, withChain_within]
  rfl

lemma collectGroup_within (s : Store) (h : ctx.organization = some organization)
    (maxDepth : Nat) :
    (s.within organization).collectGroup maxDepth ctx = s.collectGroup maxDepth ctx := by
  funext c g
  have hrow : (s.within organization).collectGroupRole maxDepth ctx g =
      s.collectGroupRole maxDepth ctx g := by
    funext c r
    simp only [collectGroupRole, h, withChain_within]
  rw [collectGroup, collectGroup, hrow]
  rfl

lemma defaultRoles_within (s : Store) (organization : String) :
    (s.within organization).defaultRoles organization = s.defaultRoles organization := by
  simp only [defaultRoles, within, Table.filter, List.filter_filter]
  apply List.filter_congr
  intro r _
  rw [Bool.and_assoc, Bool.and_self]

lemma collectDefaults_within (s : Store) (h : ctx.organization = some organization)
    (maxDepth : Nat) :
    (s.within organization).collectDefaults maxDepth ctx = s.collectDefaults maxDepth ctx := by
  funext c
  simp only [collectDefaults, h, defaultRoles_within, withChain_within]

lemma bindingsFor_within (s : Store) (h : ctx.organization = some organization)
    (principal : String) (groups : List String) :
    (s.within organization).bindingsFor principal groups ctx =
      s.bindingsFor principal groups ctx := by
  simp only [bindingsFor, within, Table.filter, List.filter_filter, h]
  apply List.filter_congr
  intro b _
  by_cases ho : b.organization = organization
  · simp [ho]
  · have ho' : ¬ organization = b.organization := fun he => ho he.symm
    simp [ho, ho']

lemma conditionalGrants_within (s : Store) (h : ctx.organization = some organization)
    (maxDepth : Nat) (bindings : List Binding) :
    (s.within organization).conditionalGrants maxDepth ctx bindings =
      s.conditionalGrants maxDepth ctx bindings := by
  simp only [conditionalGrants, boundRoles, h, withChain_within]

lemma effectiveRoles_within (s : Store) (h : ctx.organization = some organization)
    (maxDepth : Nat) (principal : String) :
    (s.within organization).effectiveRoles maxDepth principal ctx =
      s.effectiveRoles maxDepth principal ctx := by
  simp only [effectiveRoles, collectUserRole_within s h, collectGroup_within s h,
    collectDefaults_within s h, bindingsFor_within s h, conditionalGrants_within s h]
  rfl

lemma candidates_within (s : Store) (organization principal : String) (now : Instant) :
    CaveatCheck.candidates (s.within organization) principal organization now =
      CaveatCheck.candidates s principal organization now := by
  simp only [CaveatCheck.candidates, attributesOf, within, List.filter_filter]
  congr 1
  apply List.filter_congr
  intro a _
  cases a.visibleIn organization <;> simp

lemma checkCaveat_within (s : Store) {b : Binding} (hb : b.organization = organization)
    (principal : String) (ctx : Context) :
    (s.within organization).checkCaveat b principal ctx = s.checkCaveat b principal ctx := by
  simp only [checkCaveat, CaveatCheck.checkRequired, hb, candidates_within]
  rfl

lemma searchModels_within (s : Store) (organization : String) (roles : List Role)
    (request : GrantRequest) (models : List GrantModel) (trace : List String) :
    (s.within organization).searchModels roles request models trace =
      s.searchModels roles request models trace := by
  induction models generalizing trace with
  | nil => rfl
  | cons model models ih =>
    have hmatch : (s.within organization).matchRoles model roles request =
        s.matchRoles model roles request := by cases model <;> rfl
    simp only [searchModels, hmatch, ih]

lemma searchRoles_within (s : Store) (organization : String) (models : List GrantModel)
    (roles : List EffectiveRole) (request : GrantRequest) (trace : List String) :
    (s.within organization).searchRoles models roles request trace =
      s.searchRoles models roles request trace := by
  rw [searchRoles, searchRoles, searchModels_within]

lemma searchBinding_within (s : Store) (organization : String) (models : List GrantModel)
    (g : ConditionalGrant) (request : GrantRequest) (ctx : Context) (id : String)
    (trace : List String) :
    (s.within organization).searchBinding models g request ctx id trace =
      s.searchBinding models g request ctx id trace := by
  simp only [searchBinding, searchRoles_within]
  rfl

lemma decideBindings_within (s : Store) (models : List GrantModel) (roles : EffectiveRoles)
    (request : AccessRequest) (ctx : Context) (id : String) {grants : List ConditionalGrant}
    (h : ∀ g ∈ grants, g.binding.organization = organization) (r : Rejections) :
    (s.within organization).decideBindings models roles request ctx id grants r =
      s.decideBindings models roles request ctx id grants r := by
  induction grants generalizing r with
  | nil => rfl
  | cons g grants ih =>
    obtain ⟨hg, hrest⟩ := List.forall_mem_cons.mp h
    simp only [decideBindings, checkCaveat_within s hg, searchBinding_within, ih hrest]

lemma decide_within (s : Store) (models : List GrantModel) {roles : EffectiveRoles}
    (h : ∀ g ∈ roles.conditional, g.binding.organization = organization)
    (request : AccessRequest) (ctx : Context) (id : String) :
    (s.within organization).decide models roles request ctx id =
      s.decide models roles request ctx id := by
  simp only [decide, searchRoles_within, decideBindings_within s models roles request ctx id h]

lemma organization_of_conditional {maxDepth : Nat} {principal : String}
    (h : ctx.organization = some organization) {g : ConditionalGrant}
    (hg : g ∈ (s.effectiveRoles maxDepth principal ctx).conditional) :
    g.binding.organization = organization := by
  obtain ⟨b, hb, rfl, -⟩ := mem_conditional.mp hg
  simp only [bindingsFor, List.mem_filter, h, Option.all_some, Bool.and_eq_true, beq_iff_eq] at hb
  exact hb.2.1.2.symm

namespace SameWithin

lemma available (h : SameWithin organization s s') : s'.available = s.available :=
  (congrArg Store.available h.others :)

lemma effectiveRoles (h : SameWithin organization s s')
    (ho : ctx.organization = some organization) (maxDepth : Nat) (principal : String) :
    s'.effectiveRoles maxDepth principal ctx = s.effectiveRoles maxDepth principal ctx := by
  rw [← effectiveRoles_within s' ho, ← h.within, effectiveRoles_within s ho]

lemma decide (h : SameWithin organization s s') (models : List GrantModel)
    {roles : EffectiveRoles} (hr : ∀ g ∈ roles.conditional, g.binding.organization = organization)
    (request : AccessRequest) (ctx : Context) (id : String) :
    s'.decide models roles request ctx id = s.decide models roles request ctx id := by
  rw [← decide_within s' models hr, ← h.within, decide_within s models hr]

end SameWithin

end Store

namespace Engine

variable {σ : Type} [CacheService σ] {e : Engine σ} {request : AccessRequest} {ctx : Context}

lemma evaluate_withStore (hc : e.cache = none) {s : Store} (ha : s.available = e.store.available)
    (hroles : s.effectiveRoles e.maxDepth request.principal ctx =
      e.store.effectiveRoles e.maxDepth request.principal ctx)
    (hdecide : ∀ id, s.decide e.models (e.store.effectiveRoles e.maxDepth request.principal ctx)
        request ctx id =
      e.store.decide e.models (e.store.effectiveRoles e.maxDepth request.principal ctx)
        request ctx id) :
    { e with store := s }.evaluate request ctx =
      ((e.evaluate request ctx).1, { (e.evaluate request ctx).2 with store := s }) := by
  have hdecided : { e with store := s }.decide request ctx =
      ((e.decide request ctx).1, { (e.decide request ctx).2 with store := s }) := by
    rw [decide_uncached hc, decide_uncached (e := { e with store := s }) hc]
    cases hs : e.store.available with
    | true =>
      rw [if_pos (ha.trans hs)]
      exact Prod.ext ((congrArg (s.decide _ · _ _ _) hroles).trans (hdecide _)) rfl
    | false =>
      rw [if_neg (by simp [ha, hs])]
      rfl
  cases hm : request.missingField with
  | some field =>
    rw [evaluate_of_missing hm, evaluate_of_missing hm]
    rfl
  | none =>
    simp only [evaluate, hm, cachedDecision_uncached hc,
      cachedDecision_uncached (e := { e with store := s }) hc, hdecided]
    obtain ⟨answer, e'⟩ := e.decide request ctx
    cases answer with
    | error fault => rfl
    | ok d => rfl

/-- What other organizations keep in the store changes nothing about an evaluation in the
organization. -/
theorem evaluate_of_sameWithin {organization : String} {s : Store} (hc : e.cache = none)
    (h : Store.SameWithin organization e.store s) (ho : ctx.organization = some organization)
    (request : AccessRequest) :
    { e with store := s }.evaluate request ctx =
      ((e.evaluate request ctx).1, { (e.evaluate request ctx).2 with store := s }) :=
  evaluate_withStore hc h.available (h.effectiveRoles ho _ _) fun _ =>
    h.decide _ (fun _ hg => Store.organization_of_conditional ho hg) _ _ _

def acmeOnly : Engine MemoryCache where
  config := .standard
  models := [.named, .direct]
  store :=
    { Store.empty with
      roles := .ofList [.ofOrganization "reader" "Reader" "acme"]
      userRoles := [.direct "u" "ada" "auditor"]
      resourcePermissions := [.typeLevel "p" "reader" "doc" "read"]
      bindings := .ofList [{ Binding.attach "b" .user "ada" (.role "reader") "doc" "acme" with
        caveat := some (Caveat.unconstrained.requireAttribute "clearance" (.string "high")) }]
      attributes := [.ofPrincipal "a" "ada" "clearance" (.string "high")] }
  cache := none
  audit := none
  metrics := none
  ids := ⟨0⟩
  elapsed := .zero

def besideUmbra : Store :=
  { acmeOnly.store with
    roles := .ofList [{ Role.ofOrganization "auditor" "Auditor" "umbra" with isDefault := true },
      .ofOrganization "reader" "Reader" "acme"]
    bindings := .ofList [.attach "a" .user "ada" (.role "reader") "doc" "umbra",
      { Binding.attach "b" .user "ada" (.role "reader") "doc" "acme" with
        caveat := some (Caveat.unconstrained.requireAttribute "clearance" (.string "high")) }]
    attributes := acmeOnly.store.attributes ++
      [{ Attribute.ofPrincipal "z" "ada" "clearance" (.string "low") with
        organization := some "umbra" }] }

theorem evaluate_besideUmbra :
    let request : AccessRequest := ⟨"ada", "doc", "plan", "read"⟩
    let ctx : Context := ⟨some "acme", some "staff", ⟨0, 0⟩⟩
    Store.SameWithin "acme" acmeOnly.store besideUmbra ∧
      { acmeOnly with store := besideUmbra }.evaluate request ctx =
        ((acmeOnly.evaluate request ctx).1,
          { (acmeOnly.evaluate request ctx).2 with store := besideUmbra }) ∧
      (acmeOnly.evaluate request ctx).1.toOption.any (·.allowed) = true := by
  intro request ctx
  have hsame : Store.SameWithin "acme" acmeOnly.store besideUmbra := by
    constructor
    · intro r hr
      have hrows' : besideUmbra.roles.rows =
          { Role.ofOrganization "auditor" "Auditor" "umbra" with isDefault := true } ::
            acmeOnly.store.roles.rows := rfl
      rw [hrows', List.mem_cons, or_iff_right]
      rintro rfl
      exact absurd hr (by decide)
    · intro b hb
      have hrows' : besideUmbra.bindings.rows =
          .attach "a" .user "ada" (.role "reader") "doc" "umbra" ::
            acmeOnly.store.bindings.rows := rfl
      rw [hrows', List.mem_cons, or_iff_right]
      rintro rfl
      exact absurd hb (by decide)
    · rfl
    · rfl
  exact ⟨hsame, evaluate_of_sameWithin rfl hsame rfl request, by decide +kernel⟩

end Engine

end AccessControl
