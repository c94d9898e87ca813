import AccessControl.Proofs.CaveatChecks
import AccessControl.Proofs.Grants

/-! A decision allows a request exactly when some role that is held in any case carries a grant for
it, or a binding grants whose scope holds the resource and whose caveat passes. The decision names
the roles it was drawn from, and holds no longer than they do. -/

namespace AccessControl

lemma RoleSummary.ofRoles_of_isEmpty {e : EffectiveRoles} (h : e.isEmpty = true) :
    ofRoles e = [] := by
  simp only [EffectiveRoles.isEmpty, Bool.and_eq_true, List.isEmpty_iff, List.all_eq_true] at h
  have hconditional : e.conditional.flatMap (·.roles) = [] := List.flatMap_eq_nil_iff.mpr h.2
  simp [ofRoles, h.1, hconditional]

namespace Store

def BindingGrants (s : Store) (models : List GrantModel) (request : GrantRequest)
    (g : ConditionalGrant) : Prop :=
  match g.binding.target with
  | .role _ => s.AnyCarries models request (g.roles.map (·.role.id))
  | .permission permission => s.PermissionCovers permission request

inductive Basis (s : Store) (models : List GrantModel) (roles : EffectiveRoles)
    (request : AccessRequest) (ctx : Context) : Option Instant → Prop
  | roles : s.AnyCarries models request.grant roles.ids → Basis s models roles request ctx none
  | binding {g outcome} : g ∈ roles.conditional →
      g.binding.appliesTo request.type request.resource = true →
      s.checkCaveat g.binding request.principal ctx = .ok outcome → outcome.passed = true →
      s.BindingGrants models request.grant g →
      Basis s models roles request ctx
        (earliest (g.binding.caveat.bind (·.endsAt)) outcome.validUntil)

def Allows (s : Store) (models : List GrantModel) (roles : EffectiveRoles)
    (request : AccessRequest) (ctx : Context) : Prop :=
  roles.isEmpty = false ∧ ∃ bound, s.Basis models roles request ctx bound

variable {s : Store} {models : List GrantModel} {roles : EffectiveRoles}
  {request : AccessRequest} {ctx : Context}

lemma searchBinding_ok (h : s.available = true) (models : List GrantModel) (g : ConditionalGrant)
    (request : GrantRequest) (ctx : Context) (id : String) (trace : List String) :
    ∃ search, s.searchBinding models g request ctx id trace = .ok search ∧
      (search.found.isSome = true ↔ s.BindingGrants models request g) ∧
      ∀ d, search.found = some d → d.allowed = true := by
  unfold searchBinding BindingGrants
  cases ht : g.binding.target with
  | role role =>
    obtain ⟨search, hs, hf⟩ := searchRoles_ok h models g.roles request trace
    refine ⟨_, by simp only [hs]; rfl, by simpa using hf, ?_⟩
    intro d hd
    obtain ⟨m, -, rfl⟩ := Option.map_eq_some_iff.mp hd
    rfl
  | permission permission =>
    simp only [read_of_available h, ← permissionIdCovers_iff]
    cases hc : s.permissionIdCovers permission request with
    | true =>
      refine ⟨_, rfl, by simp, ?_⟩
      intro d hd
      obtain rfl := Option.some.inj hd
      rfl
    | false => exact ⟨_, rfl, by simp, by simp⟩

def Settled (s : Store) (models : List GrantModel) (roles : EffectiveRoles)
    (request : AccessRequest) (ctx : Context) (grants : List ConditionalGrant) :
    Decision ⊕ Rejections → Prop
  | .inl d => d.allowed = true ∧ d.roles = RoleSummary.ofRoles roles ∧
      ∃ g ∈ grants, ∃ outcome, g.binding.appliesTo request.type request.resource = true ∧
        s.checkCaveat g.binding request.principal ctx = .ok outcome ∧ outcome.passed = true ∧
        s.BindingGrants models request.grant g ∧ d.validUntil = earliest
          (earliest (g.binding.caveat.bind (·.endsAt)) outcome.validUntil) roles.validUntil
  | .inr _ => ∀ g ∈ grants, g.binding.appliesTo request.type request.resource = true →
      s.CaveatPasses g.binding request.principal ctx.now →
      ¬ s.BindingGrants models request.grant g

lemma Settled.cons {g : ConditionalGrant} {rest : List ConditionalGrant}
    {result : Decision ⊕ Rejections} (h : s.Settled models roles request ctx rest result)
    (hg : g.binding.appliesTo request.type request.resource = true →
      s.CaveatPasses g.binding request.principal ctx.now →
      ¬ s.BindingGrants models request.grant g) :
    s.Settled models roles request ctx (g :: rest) result := by
  cases result with
  | inl d =>
    obtain ⟨ha, hroles, g', hm, hspec⟩ := h
    exact ⟨ha, hroles, g', List.mem_cons_of_mem _ hm, hspec⟩
  | inr r =>
    intro g' hm
    rcases List.mem_cons.mp hm with rfl | hm
    · exact hg
    · exact h g' hm

lemma decideBindings_ok (h : s.available = true) (models : List GrantModel)
    (roles : EffectiveRoles) (request : AccessRequest) (ctx : Context) (id : String)
    (grants : List ConditionalGrant) (r : Rejections) :
    ∃ result, s.decideBindings models roles request ctx id grants r = .ok result ∧
      s.Settled models roles request ctx grants result := by
  induction grants generalizing r with
  | nil => exact ⟨_, rfl, by simp [Settled]⟩
  | cons g rest ih =>
    rw [decideBindings]
    split
    · rename_i happlies
      obtain ⟨outcome, hc, hpass⟩ := checkCaveat_ok h g.binding request.principal ctx
      by_cases hp : outcome.passed = true
      · obtain ⟨search, hs, hf, hallowed⟩ :=
          searchBinding_ok h models g request.grant ctx id r.trace
        simp only [hc, hs, hp, bind, Except.bind, if_true]
        cases hd : search.found with
        | some d =>
          exact ⟨_, rfl, hallowed d hd, rfl, g, List.mem_cons_self, outcome, happlies, hc, hp,
            hf.mp (by simp [hd]), rfl⟩
        | none =>
          obtain ⟨result, hr, hspec⟩ := ih { r with trace := search.trace }
          exact ⟨result, hr, hspec.cons fun _ _ hg => absurd (hf.mpr hg) (by simp [hd])⟩
      · obtain ⟨result, hr, hspec⟩ := ih (r.caveatFailed g.binding outcome.reason ctx.now)
        simp only [hc, bind, Except.bind, hp]
        exact ⟨result, hr, hspec.cons fun _ hg => absurd (hpass.mpr hg) hp⟩
    · rename_i happlies
      obtain ⟨result, hr, hspec⟩ := ih (r.outOfScope g.binding)
      exact ⟨result, hr, hspec.cons fun ha => absurd ha happlies⟩

lemma Settled.not_allows {r : Rejections} (ha : s.available = true)
    (hno : ¬ s.AnyCarries models request.grant roles.ids)
    (h : s.Settled models roles request ctx roles.conditional (.inr r)) :
    ¬ s.Allows models roles request ctx := by
  rintro ⟨-, bound, hb⟩
  cases hb with
  | roles hc => exact hno hc
  | @binding g outcome hg happlies hc hp hgrants =>
    obtain ⟨outcome', hc', hpass⟩ := checkCaveat_ok ha g.binding request.principal ctx
    obtain rfl := Except.ok.inj (hc.symm.trans hc')
    exact h g hg happlies (hpass.mp hp) hgrants

inductive Decides (s : Store) (models : List GrantModel) (roles : EffectiveRoles)
    (request : AccessRequest) (ctx : Context) (id : String) : Decision → Prop
  | noRoles : roles.isEmpty = true → Decides s models roles request ctx id
      (((Decision.deny id "no roles assigned" ctx).withTrace [resolvedText roles]).holdingUntil
        roles.validUntil)
  | roles {m trace} : roles.isEmpty = false → s.AnyCarries models request.grant roles.ids →
      Decides s models roles request ctx id
        ((((Decision.allow id m ctx).withRoles roles).withTrace trace).holdingUntil
          roles.validUntil)
  | binding {d trace} : roles.isEmpty = false → ¬ s.AnyCarries models request.grant roles.ids →
      s.decideBindings models roles request ctx id roles.conditional ⟨trace, [], none⟩ =
        .ok (.inl d) → Decides s models roles request ctx id d
  | refused {r trace} : roles.isEmpty = false → ¬ s.AnyCarries models request.grant roles.ids →
      s.decideBindings models roles request ctx id roles.conditional ⟨trace, [], none⟩ =
        .ok (.inr r) → Decides s models roles request ctx id
          ((((Decision.deny id (noMatchText request r.failures) ctx).withRoles roles).withTrace
            r.trace).holdingUntil (earliest r.notBefore roles.validUntil))

lemma decide_cases (h : s.available = true) (models : List GrantModel) (roles : EffectiveRoles)
    (request : AccessRequest) (ctx : Context) (id : String) :
    ∃ d, s.decide models roles request ctx id = .ok d ∧
      s.Decides models roles request ctx id d := by
  unfold decide
  simp only
  split
  · rename_i he
    exact ⟨_, rfl, .noRoles he⟩
  · rename_i he
    have he : roles.isEmpty = false := by simpa using he
    obtain ⟨search, hs, hf⟩ :=
      searchRoles_ok h models roles.roles request.grant [resolvedText roles]
    simp only [hs, bind, Except.bind]
    cases hm : search.found with
    | some m => exact ⟨_, rfl, .roles he (hf.mp (by simp [hm]))⟩
    | none =>
      have hno : ¬ s.AnyCarries models request.grant roles.ids :=
        fun hc => absurd (hf.mpr hc) (by simp [hm])
      obtain ⟨result, hr, -⟩ := decideBindings_ok h models roles request ctx id
        roles.conditional ⟨search.trace, [], none⟩
      simp only [hr]
      cases result with
      | inl d => exact ⟨d, rfl, .binding he hno hr⟩
      | inr r => exact ⟨_, rfl, .refused he hno hr⟩

lemma settled_of_decideBindings (h : s.available = true) {id : String}
    {grants : List ConditionalGrant} {r : Rejections} {result : Decision ⊕ Rejections}
    (hr : s.decideBindings models roles request ctx id grants r = .ok result) :
    s.Settled models roles request ctx grants result := by
  obtain ⟨result', hr', hspec⟩ := decideBindings_ok h models roles request ctx id grants r
  obtain rfl := Except.ok.inj (hr.symm.trans hr')
  exact hspec

lemma decide_ok (h : s.available = true) (models : List GrantModel) (roles : EffectiveRoles)
    (request : AccessRequest) (ctx : Context) (id : String) :
    ∃ d, s.decide models roles request ctx id = .ok d ∧
      (d.allowed = true ↔ s.Allows models roles request ctx) ∧
      (d.allowed = true → ∃ bound, s.Basis models roles request ctx bound ∧
        d.validUntil = earliest bound roles.validUntil) ∧
      d.roles = RoleSummary.ofRoles roles := by
  obtain ⟨d, hd, hcases⟩ := decide_cases h models roles request ctx id
  refine ⟨d, hd, ?_⟩
  cases hcases with
  | noRoles he =>
    have hno : ¬ s.Allows models roles request ctx := fun ha => by simp [ha.1] at he
    exact ⟨iff_of_false Bool.false_ne_true hno, fun hallowed => absurd hallowed Bool.false_ne_true,
      (RoleSummary.ofRoles_of_isEmpty he).symm⟩
  | roles he hc =>
    exact ⟨iff_of_true rfl ⟨he, none, .roles hc⟩, fun _ => ⟨none, .roles hc, rfl⟩, rfl⟩
  | binding he hno hr =>
    obtain ⟨hallowed, hroles, g, hg, outcome, ha, hc, hp, hgrants, hv⟩ :=
      settled_of_decideBindings h hr
    have hb := Basis.binding hg ha hc hp hgrants
    exact ⟨iff_of_true hallowed ⟨he, _, hb⟩, fun _ => ⟨_, hb, hv⟩, hroles⟩
  | refused he hno hr =>
    exact ⟨iff_of_false Bool.false_ne_true ((settled_of_decideBindings h hr).not_allows h hno),
      fun hallowed => absurd hallowed Bool.false_ne_true, rfl⟩

end Store

end AccessControl
