import AccessControl.Proofs.CaveatOutcomes
import AccessControl.Proofs.RoleClosures
import AccessControl.Proofs.Uncached

/-! What a decision without a cache means. Roles that are held in any case grant without narrowing
anything; if none of them does, the first of the bindings that qualify grants, by id, and narrows
the grant to the groups of columns of its caveat. -/

namespace AccessControl

namespace Store

def Covers (s : Store) (request : GrantRequest) (roles : List EffectiveRole) : Prop :=
  ∃ r ∈ roles, s.LinkedGrant r.role.id request ∨ s.DirectGrant r.role.id request

/-- A grant under a binding whose scope holds the resource, whose caveat holds for the principal,
and whose role or permission covers the request. -/
structure Qualifies (s : Store) (request : AccessRequest) (ctx : Context) (g : ConditionalGrant) :
    Prop where
  type : g.binding.resourceType = request.type
  resource : ∀ id, g.binding.resource = some id → id = request.resource
  caveat : s.CaveatPasses g.binding request.principal ctx.now
  covers : match g.binding.target with
    | .role _ => s.Covers request.grant g.roles
    | .permission permission => s.PermissionCovers permission request.grant

def columnsOf (g : ConditionalGrant) : List String :=
  (g.binding.caveat.map (·.columnGroups)).getD []

def builtIn : List GrantModel := [.named, .direct]

variable {s : Store} {request : AccessRequest} {ctx : Context} {g : ConditionalGrant}
  {roles : EffectiveRoles}

lemma covers_iff_anyCarries {request : GrantRequest} {roles : List EffectiveRole} :
    s.Covers request roles ↔ s.AnyCarries builtIn request (roles.map (·.role.id)) := by
  simp [Covers, AnyCarries, builtIn, Carries]

lemma qualifies_iff : s.Qualifies request ctx g ↔
    g.binding.appliesTo request.type request.resource = true ∧
      s.CaveatPasses g.binding request.principal ctx.now ∧
        s.BindingGrants builtIn request.grant g := by
  have happlies : g.binding.appliesTo request.type request.resource = true ↔
      g.binding.resourceType = request.type ∧
        ∀ id, g.binding.resource = some id → id = request.resource := by
    simp [Binding.appliesTo, Option.all_eq_true]
  have hgrants : s.BindingGrants builtIn request.grant g ↔ match g.binding.target with
      | .role _ => s.Covers request.grant g.roles
      | .permission permission => s.PermissionCovers permission request.grant := by
    unfold BindingGrants
    cases g.binding.target with
    | role role => exact covers_iff_anyCarries.symm
    | permission permission => exact Iff.rfl
  rw [happlies, hgrants]
  exact ⟨fun h => ⟨⟨h.type, h.resource⟩, h.caveat, h.covers⟩,
    fun ⟨⟨ht, hr⟩, hc, hg⟩ => ⟨ht, hr, hc, hg⟩⟩

lemma decideBindings_cons (ha : s.available = true) (g : ConditionalGrant)
    (rest : List ConditionalGrant) (roles : EffectiveRoles) (request : AccessRequest)
    (ctx : Context) (id : String) (r : Rejections) :
    (¬ s.Qualifies request ctx g ∧
      ∃ r', s.decideBindings builtIn roles request ctx id (g :: rest) r =
        s.decideBindings builtIn roles request ctx id rest r') ∨
    s.Qualifies request ctx g ∧
      ∃ d, s.decideBindings builtIn roles request ctx id (g :: rest) r = .ok (.inl d) ∧
        d.allowed = true ∧ d.binding = some g.binding.id ∧ d.columnGroups = columnsOf g := by
  rw [qualifies_iff, decideBindings]
  split
  · rename_i happlies
    obtain ⟨outcome, hc, hpass⟩ := checkCaveat_ok ha g.binding request.principal ctx
    by_cases hp : outcome.passed = true
    · obtain ⟨search, hs, hf, hallowed⟩ :=
        searchBinding_ok ha builtIn g request.grant ctx id r.trace
      simp only [hc, hs, hp, bind, Except.bind, if_true]
      cases hd : search.found with
      | some d =>
        exact Or.inr ⟨⟨happlies, hpass.mp hp, hf.mp (by simp [hd])⟩, _, rfl, hallowed d hd, rfl,
          columnGroups_of_passed hc hp⟩
      | none =>
        exact Or.inl ⟨fun hq => absurd (hf.mpr hq.2.2) (by simp [hd]), _, rfl⟩
    · simp only [hc, bind, Except.bind, hp]
      exact Or.inl ⟨fun hq => hp (hpass.mpr hq.2.1), _, rfl⟩
  · rename_i happlies
    exact Or.inl ⟨fun hq => happlies hq.1, _, rfl⟩

lemma decideBindings_first (ha : s.available = true) (roles : EffectiveRoles)
    (request : AccessRequest) (ctx : Context) (id : String) (grants : List ConditionalGrant)
    (r : Rejections) :
    (∃ before g after d, grants = before ++ g :: after ∧
      (∀ g' ∈ before, ¬ s.Qualifies request ctx g') ∧ s.Qualifies request ctx g ∧
      s.decideBindings builtIn roles request ctx id grants r = .ok (.inl d) ∧
      d.allowed = true ∧ d.binding = some g.binding.id ∧ d.columnGroups = columnsOf g) ∨
    (∀ g ∈ grants, ¬ s.Qualifies request ctx g) ∧
      ∃ r', s.decideBindings builtIn roles request ctx id grants r = .ok (.inr r') := by
  induction grants generalizing r with
  | nil => exact Or.inr ⟨by simp, r, rfl⟩
  | cons g rest ih =>
    rcases decideBindings_cons ha g rest roles request ctx id r with
      ⟨hno, r', hr⟩ | ⟨hq, d, hd, hspec⟩
    · rw [hr]
      rcases ih r' with ⟨before, g', after, d, rfl, hbefore, hspec⟩ | ⟨hnone, hr'⟩
      · exact Or.inl ⟨g :: before, g', after, d, rfl, List.forall_mem_cons.mpr ⟨hno, hbefore⟩,
          hspec⟩
      · exact Or.inr ⟨List.forall_mem_cons.mpr ⟨hno, hnone⟩, hr'⟩
    · exact Or.inl ⟨[], g, rest, d, rfl, by simp, hq, hd, hspec⟩

lemma least_of_first {grants before after : List ConditionalGrant}
    (hinc : grants.Pairwise fun g g' => g.binding.id < g'.binding.id)
    (heq : grants = before ++ g :: after)
    (hbefore : ∀ g' ∈ before, ¬ s.Qualifies request ctx g') {g' : ConditionalGrant}
    (hmem : g' ∈ grants) (hq : s.Qualifies request ctx g') : g.binding.id ≤ g'.binding.id := by
  rw [heq] at hinc hmem
  rcases List.mem_append.mp hmem with hmem | hmem
  · exact absurd hq (hbefore g' hmem)
  · rcases List.mem_cons.mp hmem with rfl | hmem
    · exact String.le_refl _
    · have hlt := (List.pairwise_cons.mp (List.pairwise_append.mp hinc).2.1).1 g' hmem
      exact String.not_lt.mp fun hgt => String.lt_irrefl _ (String.lt_trans hlt hgt)

/-- What a decision says of a request, by the roles it was drawn from. -/
structure Means (s : Store) (roles : EffectiveRoles) (request : AccessRequest) (ctx : Context)
    (d : Decision) : Prop where
  allowed : d.allowed = true ↔ roles.isEmpty = false ∧
    (s.Covers request.grant roles.roles ∨ ∃ g ∈ roles.conditional, s.Qualifies request ctx g)
  unnarrowed : s.Covers request.grant roles.roles → d.binding = none ∧ d.columnGroups = []
  narrowed : d.allowed = true → ¬ s.Covers request.grant roles.roles →
    ∃ g ∈ roles.conditional, s.Qualifies request ctx g ∧
      (∀ g' ∈ roles.conditional, s.Qualifies request ctx g' → g.binding.id ≤ g'.binding.id) ∧
      d.binding = some g.binding.id ∧ d.columnGroups = columnsOf g

lemma decide_means (ha : s.available = true) (roles : EffectiveRoles)
    (hinc : roles.conditional.Pairwise fun g g' => g.binding.id < g'.binding.id)
    (request : AccessRequest) (ctx : Context) (id : String) :
    ∃ d, s.decide builtIn roles request ctx id = .ok d ∧ s.Means roles request ctx d := by
  obtain ⟨d, hd, hcases⟩ := decide_cases ha builtIn roles request ctx id
  refine ⟨d, hd, ?_⟩
  cases hcases with
  | noRoles he =>
    have hno : ¬ s.Covers request.grant roles.roles := by
      rintro ⟨r, hr, -⟩
      simp only [EffectiveRoles.isEmpty, Bool.and_eq_true, List.isEmpty_iff] at he
      simp [he.1] at hr
    exact ⟨iff_of_false Bool.false_ne_true fun h => absurd h.1 (by simp [he]),
      fun hc => absurd hc hno, fun h => absurd h Bool.false_ne_true⟩
  | roles he hc =>
    have hc := covers_iff_anyCarries.mpr hc
    exact ⟨iff_of_true rfl ⟨he, Or.inl hc⟩, fun _ => ⟨rfl, rfl⟩, fun _ hno => absurd hc hno⟩
  | @binding d trace he hno hr =>
    have hno := covers_iff_anyCarries.not.mpr hno
    rcases decideBindings_first ha roles request ctx id roles.conditional ⟨trace, [], none⟩ with
      ⟨before, g, after, d', heq, hbefore, hq, hd', hallowed, hbinding, hcolumns⟩ | ⟨-, r, hr'⟩
    · obtain rfl := Sum.inl.inj (Except.ok.inj (hr.symm.trans hd'))
      have hmem : g ∈ roles.conditional := by simp [heq]
      exact ⟨iff_of_true hallowed ⟨he, Or.inr ⟨g, hmem, hq⟩⟩, fun hc => absurd hc hno,
        fun _ _ => ⟨g, hmem, hq, fun g' => least_of_first hinc heq hbefore, hbinding, hcolumns⟩⟩
    · cases hr.symm.trans hr'
  | @refused r trace he hno hr =>
    have hno := covers_iff_anyCarries.not.mpr hno
    rcases decideBindings_first ha roles request ctx id roles.conditional ⟨trace, [], none⟩ with
      ⟨before, g, after, d', -, -, -, hd', -⟩ | ⟨hnone, -⟩
    · cases hr.symm.trans hd'
    · refine ⟨iff_of_false Bool.false_ne_true ?_, fun hc => absurd hc hno,
        fun h => absurd h Bool.false_ne_true⟩
      rintro ⟨-, hc | ⟨g, hg, hq⟩⟩
      · exact hno hc
      · exact hnone g hg hq

end Store

namespace Engine

variable {σ : Type} [CacheService σ]

/-- Without a cache, a complete request gets the decision that its effective roles mean. -/
theorem evaluate_means (e : Engine σ) (hc : e.cache = none) (hmodels : e.models = [.named, .direct])
    (ha : e.store.available = true) (request : AccessRequest) (hm : request.missingField = none)
    (ctx : Context) :
    ∃ d, (e.evaluate request ctx).1 = .ok d ∧
      e.store.Means (e.store.effectiveRoles e.maxDepth request.principal ctx) request ctx d := by
  obtain ⟨d, hd, hmeans⟩ := Store.decide_means ha (e.store.effectiveRoles e.maxDepth
    request.principal ctx) Store.conditional_increasing request ctx e.freshId.1
  rw [Store.builtIn, ← hmodels] at hd
  have hdecide : e.decide request ctx = (.ok d, e.freshId.2) := by
    simp only [decide, effectiveRoles_uncached hc ha]
    exact congrArg (·, _) hd
  refine ⟨_, congrArg Prod.fst (evaluate_of_miss hm (cachedDecision_uncached hc _ _) hdecide), ?_⟩
  exact ⟨hmeans.allowed, hmeans.unnarrowed, hmeans.narrowed⟩

def narrowing : Engine MemoryCache where
  config := .standard
  models := [.named, .direct]
  store :=
    { Store.empty with
      roles := .ofList [.global "reader" "Reader"]
      resourcePermissions := [.typeLevel "p" "reader" "doc" "read"]
      bindings := .ofList [
        { Binding.attach "a" .user "ada" (.role "reader") "doc" "acme" with
          caveat := some ⟨some (.endingAt ⟨90, 0⟩), [], ["names"]⟩ },
        { Binding.attach "b" .user "ada" (.role "reader") "doc" "acme" with
          caveat := some ⟨none, [], ["pay"]⟩ }] }
  cache := none
  audit := none
  metrics := none
  ids := ⟨0⟩
  elapsed := .zero

theorem evaluate_means_narrowing :
    ∃ d, (narrowing.evaluate ⟨"ada", "doc", "plan", "read"⟩ ⟨none, none, ⟨0, 0⟩⟩).1 = .ok d ∧
      d.allowed = true ∧ d.binding = some "a" ∧ d.columnGroups = ["names"] ∧
      narrowing.store.Means (narrowing.store.effectiveRoles 8 "ada" ⟨none, none, ⟨0, 0⟩⟩)
        ⟨"ada", "doc", "plan", "read"⟩ ⟨none, none, ⟨0, 0⟩⟩ d := by
  obtain ⟨d, hd, hmeans⟩ := evaluate_means narrowing rfl rfl rfl ⟨"ada", "doc", "plan", "read"⟩
    (by decide +kernel) ⟨none, none, ⟨0, 0⟩⟩
  have h : ((narrowing.evaluate ⟨"ada", "doc", "plan", "read"⟩
      ⟨none, none, ⟨0, 0⟩⟩).1.toOption.any fun d =>
        d.allowed && d.binding == some "a" && d.columnGroups == ["names"]) = true := by
    decide +kernel
  rw [hd] at h
  simp only [Except.toOption, Option.any_some, Bool.and_eq_true, beq_iff_eq] at h
  exact ⟨d, hd, h.1.1, h.1.2, h.2, hmeans⟩

end Engine

end AccessControl
