import AccessControl.Proofs.Resolved

/-! Two stores, each with its instant, give a principal the same effective roles when they agree on
the rows that resolution looks at. -/

namespace AccessControl

lemma ChainWalk.step_congr {s s' : Store} (h : s'.roles = s.roles) (maxDepth : Nat)
    (organization : Option String) :
    ChainWalk.step s' maxDepth organization = ChainWalk.step s maxDepth organization := by
  funext w
  simp only [ChainWalk.step, Store.role?, h]

lemma Collected.withChain_congr {s s' : Store} (h : s'.roles = s.roles) (maxDepth : Nat)
    (organization : Option String) (c : Collected) (role : String) (via : Provenance) :
    c.withChain s' maxDepth organization role via = c.withChain s maxDepth organization role via := by
  rw [withChain, withChain, ChainWalk.step_congr h]

namespace Store

structure Agree (s s' : Store) (maxDepth : Nat) (principal : String) (ctx ctx' : Context) :
    Prop where
  roles : s'.roles = s.roles
  organization : ctx'.organization = ctx.organization
  group : ctx'.group = ctx.group
  userRoles : s'.userRolesOf principal = s.userRolesOf principal
  assigned : ∀ u ∈ s.userRolesOf principal, SteadyRow u.isActive u.window ctx.now ctx'.now
  memberships : s'.membershipsOf principal = s.membershipsOf principal
  joined : ∀ m ∈ s.membershipsOf principal, SteadyRow m.isActive m.window ctx.now ctx'.now
  sourced : ∀ u ∈ s.userRolesOf principal, u.isEffective ctx.now = true →
    ∀ g, u.sourceGroup = some g → g ∈ s.memberGroups principal ctx.now →
      s'.groupGrants g u.role ctx'.now = s.groupGrants g u.role ctx.now
  walk : GroupWalk.inherited s' maxDepth ctx'.now (s.rootGroups principal ctx) =
    GroupWalk.inherited s maxDepth ctx.now (s.rootGroups principal ctx)
  groupRoles : ∀ g ∈ s.groupsOf maxDepth principal ctx, s'.groupRolesOf g = s.groupRolesOf g
  given : ∀ g ∈ s.groupsOf maxDepth principal ctx, ∀ r ∈ s.groupRolesOf g,
    SteadyRow r.isActive r.window ctx.now ctx'.now
  bindings : s'.bindingsFor principal (s.groupsOf maxDepth principal ctx) ctx' =
    s.bindingsFor principal (s.groupsOf maxDepth principal ctx) ctx

namespace Agree

variable {s s' : Store} {maxDepth : Nat} {principal : String} {ctx ctx' : Context}

lemma memberGroups (h : s.Agree s' maxDepth principal ctx ctx') :
    s'.memberGroups principal ctx'.now = s.memberGroups principal ctx.now := by
  rw [Store.memberGroups, Store.memberGroups, h.memberships]
  congr 2
  exact List.filter_congr fun m hm => (h.joined m hm).1

lemma membershipBound (h : s.Agree s' maxDepth principal ctx ctx') :
    s'.membershipBound principal ctx'.now = s.membershipBound principal ctx.now := by
  rw [Store.membershipBound, Store.membershipBound, h.memberships]
  exact List.foldl_ext _ _ _ fun _ m hm => by rw [(h.joined m hm).2]

lemma rootGroups (h : s.Agree s' maxDepth principal ctx ctx') :
    s'.rootGroups principal ctx' = s.rootGroups principal ctx := by
  simp only [Store.rootGroups, h.memberGroups, h.group]

lemma collectUserRole (h : s.Agree s' maxDepth principal ctx ctx') {u : UserRole}
    (hu : u ∈ s.userRolesOf principal) (c : Collected) :
    s'.collectUserRole maxDepth (s.memberGroups principal ctx.now) ctx' c u =
      s.collectUserRole maxDepth (s.memberGroups principal ctx.now) ctx c u := by
  obtain ⟨heffective, hbound⟩ := h.assigned u hu
  have heffective : u.isEffective ctx'.now = u.isEffective ctx.now := heffective
  unfold Store.collectUserRole
  simp only [hbound, heffective, h.organization, Collected.withChain_congr h.roles]
  by_cases he : u.isEffective ctx.now = true
  · simp only [he, if_true]
    cases hg : u.sourceGroup with
    | none => rfl
    | some g =>
      by_cases hm : g ∈ s.memberGroups principal ctx.now
      · simp only [h.sourced u hu he g hg hm]
      · simp [hm]
  · simp [he]

lemma collectGroup (h : s.Agree s' maxDepth principal ctx ctx') {g : String}
    (hg : g ∈ s.groupsOf maxDepth principal ctx) (c : Collected) :
    s'.collectGroup maxDepth ctx' c g = s.collectGroup maxDepth ctx c g := by
  rw [Store.collectGroup, Store.collectGroup, h.groupRoles g hg]
  refine List.foldl_ext _ _ _ fun c r hr => ?_
  obtain ⟨heffective, hbound⟩ := h.given g hg r hr
  have heffective : r.isEffective ctx'.now = r.isEffective ctx.now := heffective
  simp only [Store.collectGroupRole, hbound, heffective, h.organization,
    Collected.withChain_congr h.roles]

lemma collectDefaults (h : s.Agree s' maxDepth principal ctx ctx') (c : Collected) :
    s'.collectDefaults maxDepth ctx' c = s.collectDefaults maxDepth ctx c := by
  simp only [Store.collectDefaults, Store.defaultRoles, h.organization, h.roles,
    Collected.withChain_congr h.roles]

lemma collected (h : s.Agree s' maxDepth principal ctx ctx') :
    s'.collected maxDepth principal ctx' = s.collected maxDepth principal ctx := by
  simp only [Store.collected, Store.groupsOf, h.userRoles, h.membershipBound, h.memberGroups,
    h.rootGroups, h.walk, h.collectDefaults]
  congr 1
  rw [List.foldl_ext _ _ _ fun c u hu => h.collectUserRole hu c]
  exact List.foldl_ext _ _ _ fun c g hg => h.collectGroup hg c

lemma conditionalGrants (h : s.Agree s' maxDepth principal ctx ctx') (bindings : List Binding) :
    s'.conditionalGrants maxDepth ctx' bindings = s.conditionalGrants maxDepth ctx bindings := by
  have hbound : ∀ b, s'.boundRoles maxDepth ctx' b = s.boundRoles maxDepth ctx b := fun b => by
    simp only [boundRoles, h.organization, Collected.withChain_congr h.roles]
  simp only [Store.conditionalGrants, hbound]

lemma groupsOf (h : s.Agree s' maxDepth principal ctx ctx') :
    s'.groupsOf maxDepth principal ctx' = s.groupsOf maxDepth principal ctx := by
  rw [Store.groupsOf, Store.groupsOf, h.rootGroups, h.walk]

lemma effectiveRoles (h : s.Agree s' maxDepth principal ctx ctx') :
    s'.effectiveRoles maxDepth principal ctx' = s.effectiveRoles maxDepth principal ctx := by
  simp only [effectiveRoles_eq, h.collected, h.rootGroups, h.walk, h.groupsOf, h.bindings,
    h.conditionalGrants]

end Agree

end Store

end AccessControl
