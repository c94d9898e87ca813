import AccessControl.Proofs.Lasting

/-! A store where nothing moved that a principal's access rests on: apart from roles, what resolution
looks at is the same, and so is what the named roles carry. The same requests are then allowed. -/

namespace AccessControl

namespace Store

structure Unmoved (s s' : Store) (maxDepth : Nat) (names : List String) (principal : String)
    (ctx : Context) : Prop where
  userRoles : s'.userRolesOf principal = s.userRolesOf principal
  memberships : s'.membershipsOf principal = s.membershipsOf principal
  walk : GroupWalk.inherited s' maxDepth ctx.now (s.rootGroups principal ctx) =
    GroupWalk.inherited s maxDepth ctx.now (s.rootGroups principal ctx)
  groupRoles : ∀ g, g ∈ s.memberGroups principal ctx.now ∨ g ∈ s.groupsOf maxDepth principal ctx →
    s'.groupRolesOf g = s.groupRolesOf g
  bindings : s'.bindingsFor principal (s.groupsOf maxDepth principal ctx) ctx =
    s.bindingsFor principal (s.groupsOf maxDepth principal ctx) ctx
  attributes : s'.attributesOf principal .principal = s.attributesOf principal .principal
  carries : ∀ role ∈ names, ∀ request model,
    s'.Carries request model role ↔ s.Carries request model role
  covers : ∀ b ∈ s.bindingsFor principal (s.groupsOf maxDepth principal ctx) ctx,
    ∀ permission, b.target = .permission permission → ∀ request,
      s'.PermissionCovers permission request ↔ s.PermissionCovers permission request

variable {s s' : Store} {maxDepth : Nat} {names : List String} {principal : String} {ctx : Context}
  {keep : String → Bool}

lemma Unmoved.refl (s : Store) (maxDepth : Nat) (names : List String) (principal : String)
    (ctx : Context) : s.Unmoved s maxDepth names principal ctx :=
  ⟨rfl, rfl, rfl, fun _ _ => rfl, rfl, rfl, fun _ _ _ _ => Iff.rfl, fun _ _ _ _ _ => Iff.rfl⟩

lemma usable_of_mem_names {id : String} (h : id ∈ (s.effectiveRoles maxDepth principal ctx).names) :
    ∃ role, s.Usable ctx.organization id role := by
  rcases EffectiveRoles.mem_names.mp h with h | ⟨g, hg, h⟩
  · obtain ⟨a, -, n, -, hp⟩ := mem_ids.mp h
    exact hp.usable
  · obtain ⟨b, -, rfl, -⟩ := mem_conditional.mp hg
    obtain ⟨role, -, n, -, hp⟩ := mem_boundRoles.mp h
    exact hp.usable

lemma keep_of_mem_names {id : String}
    (h : id ∈ ((s.keeping keep).effectiveRoles maxDepth principal ctx).names) : keep id = true := by
  obtain ⟨role, hu⟩ := usable_of_mem_names h
  exact (usable_keeping.mp hu).1

lemma caveatPasses_congr (h : s'.attributesOf principal .principal =
    s.attributesOf principal .principal) {b : Binding} {now : Instant} :
    s'.CaveatPasses b principal now ↔ s.CaveatPasses b principal now := by
  simp only [CaveatPasses, CaveatCheck.candidates, h]

namespace Unmoved

lemma agree (h : s.Unmoved s' maxDepth names principal ctx) (hr : s'.roles = s.roles) :
    s.Agree s' maxDepth principal ctx ctx where
  roles := hr
  organization := rfl
  group := rfl
  userRoles := h.userRoles
  assigned _ _ := .refl _ _ _
  memberships := h.memberships
  joined _ _ := .refl _ _ _
  sourced _ _ _ g _ hm := by
    rw [groupGrants, groupGrants, h.groupRoles g (Or.inl hm)]
  walk := h.walk
  groupRoles g hg := h.groupRoles g (Or.inr hg)
  given _ _ _ _ := .refl _ _ _
  bindings := h.bindings

lemma effectiveRoles (h : s.Unmoved s' maxDepth names principal ctx) (hr : s'.roles = s.roles) :
    s'.effectiveRoles maxDepth principal ctx = s.effectiveRoles maxDepth principal ctx :=
  (h.agree hr).effectiveRoles

lemma keeping (h : s.Unmoved s' maxDepth names principal ctx) (keep : String → Bool) :
    (s.keeping keep).Unmoved (s'.keeping keep) maxDepth names principal ctx :=
  ⟨h.userRoles, h.memberships, h.walk, h.groupRoles, h.bindings, h.attributes, h.carries, h.covers⟩

lemma anyCarries (h : s.Unmoved s' maxDepth names principal ctx) {models : List GrantModel}
    {request : GrantRequest} {roles : List String} (hroles : ∀ id ∈ roles, id ∈ names) :
    s'.AnyCarries models request roles ↔ s.AnyCarries models request roles :=
  exists_congr fun role => and_congr_right fun hr => exists_congr fun model =>
    and_congr_right fun _ => h.carries role (hroles role hr) request model

lemma allows {models : List GrantModel} {request : AccessRequest}
    (h : s.Unmoved s' maxDepth names request.principal ctx) (ha : s.available = true)
    (ha' : s'.available = true) {e : EffectiveRoles} (hnames : ∀ id ∈ e.names, id ∈ names)
    (hbindings : ∀ g ∈ e.conditional, g.binding ∈ s.bindingsFor request.principal
      (s.groupsOf maxDepth request.principal ctx) ctx) :
    s'.Allows models e request ctx ↔ s.Allows models e request ctx := by
  rw [allows_iff ha, allows_iff ha']
  refine and_congr_right fun _ => or_congr ?_ ?_
  · exact h.anyCarries fun id hid => hnames id (EffectiveRoles.mem_names.mpr (Or.inl hid))
  · refine exists_congr fun g => and_congr_right fun hg => and_congr_right fun _ =>
      and_congr (caveatPasses_congr h.attributes) ?_
    unfold BindingGrants
    cases ht : g.binding.target with
    | role role =>
      refine h.anyCarries fun id hid => hnames id ?_
      exact EffectiveRoles.mem_names.mpr (Or.inr ⟨_, hg, hid⟩)
    | permission permission => exact h.covers _ (hbindings g hg) permission ht request.grant

lemma allowsNow {models : List GrantModel} {request : AccessRequest}
    (h : s.Unmoved s' maxDepth names request.principal ctx) (hr : s'.roles = s.roles)
    (ha : s.available = true) (ha' : s'.available = true)
    (hnames : ∀ id ∈ (s.effectiveRoles maxDepth request.principal ctx).names, id ∈ names) :
    s'.AllowsNow models maxDepth request ctx ↔ s.AllowsNow models maxDepth request ctx := by
  rw [AllowsNow, AllowsNow, h.effectiveRoles hr]
  refine h.allows ha ha' hnames fun g hg => ?_
  obtain ⟨b, hb, rfl, -⟩ := mem_conditional.mp hg
  exact hb

lemma allowsNow_keeping {models : List GrantModel} {request : AccessRequest}
    (h : s.Unmoved s' maxDepth names request.principal ctx)
    (hr : s'.roles.only names.contains = s.roles.only names.contains) (ha : s.available = true)
    (ha' : s'.available = true) :
    (s'.keeping names.contains).AllowsNow models maxDepth request ctx ↔
      (s.keeping names.contains).AllowsNow models maxDepth request ctx :=
  (h.keeping names.contains).allowsNow hr ha ha' fun _ hid => by simpa using keep_of_mem_names hid

end Unmoved

end Store

end AccessControl
