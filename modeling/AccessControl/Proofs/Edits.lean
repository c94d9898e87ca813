import AccessControl.Proofs.Bounds
import AccessControl.Proofs.Reaching
import AccessControl.Proofs.Unmoved
import AccessControl.Store.Write

/-! What a write may do to the store, with the changes that are announced for it. Whoever no
announced change reaches is left with the access it had. -/

namespace AccessControl

namespace Store

inductive Edit (s : Store) : Store → List Change → Prop
  | role {row : Role} : CacheKey.Plain row.id →
      Edit s { s with roles := s.roles.insert row } [.role row.id]
  | userRoles {principal role : String} {rows : List UserRole} :
      (∀ u ∈ rows, u.window.Regular) →
      (∀ p ≠ principal, rows.filter (fun u => u.principal == p) = s.userRolesOf p) →
      Edit s { s with userRoles := rows } [.userRole principal role]
  | permission {row : Permission} :
      Edit s { s with permissions := s.permissions.insert row } [.permission row.id]
  | links {role permission : String} {rows : List RolePermission} :
      (∀ r ≠ role, rows.filter (fun l => l.role == r) = s.linksOfRole r) →
      Edit s { s with rolePermissions := rows } [.rolePermission role permission]
  | grants {role : String} {rows : List ResourcePermission} :
      (∀ r ≠ role, rows.filter (fun p => p.role == r) = s.grantsOfRole r) →
      Edit s { s with resourcePermissions := rows } [.resourcePermission role]
  | binding {row : Binding} {changes : List Change} :
      (∀ c, row.caveat = some c → c.Codable) → Change.ofBinding row ∈ changes →
      (∀ old, s.binding? row.id = some old → Change.ofBinding old ∈ changes) →
      Edit s { s with bindings := s.bindings.insert row } changes
  | groupRoles {group role : String} {rows : List GroupRole} :
      (∀ g ∈ rows, g.window.Regular) →
      (∀ g ≠ group, rows.filter (fun r => r.group == g) = s.groupRolesOf g) →
      Edit s { s with groupRoles := rows } [.groupRole group role]
  | memberships {group principal : String} {rows : List Membership} :
      (∀ m ∈ rows, m.window.Regular) →
      (∀ p ≠ principal, rows.filter (fun m => m.principal == p) = s.membershipsOf p) →
      Edit s { s with memberships := rows } [.membership group principal]
  | inheritance {edge : Inheritance} : edge.window.Regular →
      Edit s { s with inheritance := s.inheritance ++ [edge] }
        [.inheritance edge.parent edge.child]
  | attributes {subject : String} {rows : List Attribute} :
      (∀ a ∈ rows, RegularBound a.expiresAt) →
      (∀ x ≠ subject, ∀ type, rows.filter (fun a => a.subject == x && a.subjectType == type) =
        s.attributesOf x type) →
      Edit s { s with attributes := rows } [.attributes subject]

section grants

variable {s s' : Store} {request : GrantRequest}

lemma permissionCovers_insert {row : Permission} {permission : String} (h : permission ≠ row.id) :
    ({ s with permissions := s.permissions.insert row } : Store).PermissionCovers permission
      request ↔ s.PermissionCovers permission request := by
  have hget : (s.permissions.insert row).get? permission = s.permissions.get? permission := by
    rw [Table.get?_insert, if_neg]
    exact fun he => h he.symm
  unfold PermissionCovers permission?
  rw [hget]
  exact Iff.rfl

lemma linkedGrant_congr {role : String} (hl : s'.linksOfRole role = s.linksOfRole role)
    (hc : ∀ l ∈ s.linksOfRole role, l.isActive = true →
      (s'.PermissionCovers l.permission request ↔ s.PermissionCovers l.permission request)) :
    s'.LinkedGrant role request ↔ s.LinkedGrant role request := by
  have hmem : ∀ {s : Store}, s.LinkedGrant role request ↔ ∃ l ∈ s.linksOfRole role,
      l.isActive = true ∧ s.PermissionCovers l.permission request := by
    simp [LinkedGrant, linksOfRole, and_assoc]
  rw [hmem, hmem, hl]
  exact exists_congr fun l => and_congr_right fun h => and_congr_right fun hactive => hc l h hactive

lemma directGrant_congr {role : String} (hg : s'.grantsOfRole role = s.grantsOfRole role) :
    s'.DirectGrant role request ↔ s.DirectGrant role request := by
  have hmem : ∀ {s : Store}, s.DirectGrant role request ↔ ∃ p ∈ s.grantsOfRole role,
      p.isActive = true ∧ p.type = request.type ∧ p.action = request.action ∧
        (p.resource = "" ∨ p.resource = ResourcePermission.wildcard ∨
          p.resource = request.id) := by
    simp [DirectGrant, grantsOfRole, and_assoc]
  rw [hmem, hmem, hg]

lemma unmoved_of_unnamed {maxDepth : Nat} {names : List String} {principal : String}
    {ctx : Context} {row : Permission}
    (hl : ∀ l ∈ s.rolePermissions, l.isActive = true → l.role ∈ names → l.permission ≠ row.id)
    (hb : ∀ b ∈ s.bindingsFor principal (s.groupsOf maxDepth principal ctx) ctx,
      b.target ≠ .permission row.id) :
    s.Unmoved { s with permissions := s.permissions.insert row } maxDepth names principal ctx := by
  refine { Unmoved.refl s maxDepth names principal ctx with carries := ?_, covers := ?_ }
  · intro role hr request model
    cases model with
    | direct => exact Iff.rfl
    | named =>
      refine linkedGrant_congr rfl fun l hm hactive => permissionCovers_insert ?_
      simp only [linksOfRole, List.mem_filter, beq_iff_eq] at hm
      exact hl l hm.1 hactive (hm.2 ▸ hr)
  · intro b hm permission ht request
    exact permissionCovers_insert fun he => hb b hm (he ▸ ht)

end grants

namespace Edit

variable {s s' : Store} {changes : List Change} {maxDepth : Nat} {names : List String}
  {principal : String} {ctx : Context}

lemma available (h : s.Edit s' changes) : s'.available = s.available := by
  cases h <;> rfl

lemma cacheable (h : s.Edit s' changes) (hs : s.Cacheable) : s'.Cacheable := by
  cases h with
  | @role row hid =>
    refine { hs with roles := fun r hr => ?_ }
    rcases Table.mem_put hr with rfl | hr
    · exact hid
    · exact hs.roles r hr
  | userRoles hw _ => exact { hs with userRoles := hw }
  | permission => exact { hs with }
  | links _ => exact { hs with }
  | grants _ => exact { hs with }
  | @binding row changes hc _ _ =>
    refine { hs with caveats := fun b hb => ?_ }
    rcases Table.mem_put hb with rfl | hb
    · exact hc
    · exact hs.caveats b hb
  | groupRoles hw _ => exact { hs with groupRoles := hw }
  | memberships hw _ => exact { hs with memberships := hw }
  | @inheritance edge hw =>
    refine { hs with inheritance := fun e he => ?_ }
    rcases List.mem_append.mp he with he | he
    · exact hs.inheritance e he
    · obtain rfl := List.mem_singleton.mp he
      exact hw
  | attributes hw _ => exact { hs with attributes := hw }

lemma only_roles (h : s.Edit s' changes)
    (hn : ∀ c ∈ changes, ¬ Reached (s'.staleItems maxDepth c) names principal ctx) :
    s'.roles.only names.contains = s.roles.only names.contains := by
  cases h with
  | @role row =>
    apply Table.only_insert_of_not s.roles
    rw [← Bool.not_eq_true, List.contains_iff_mem]
    exact fun hm => hn _ List.mem_cons_self ⟨.role row.id, List.mem_cons_self, hm⟩
  | userRoles | permission | links | grants | binding | groupRoles | memberships | inheritance
  | attributes => rfl

lemma unmoved_permission {row : Permission}
    (hn : ¬ Reached (({ s with permissions := s.permissions.insert row } : Store).staleItems maxDepth
      (.permission row.id)) names principal ctx) :
    s.Unmoved { s with permissions := s.permissions.insert row } maxDepth names principal ctx := by
  refine unmoved_of_unnamed (fun l hl _ hr he => hn ?_) fun b hb ht => hn ?_
  · refine ⟨.role l.role, List.mem_append_right _ (List.mem_append_left _ ?_), hr⟩
    apply List.mem_map_of_mem
    rw [rolesOfPermission, Text.mem_sortedDistinct]
    exact List.mem_map.mpr ⟨l, List.mem_filter.mpr ⟨hl, by simpa using he⟩, rfl⟩
  · simp only [bindingsFor, List.mem_filter, Bool.and_eq_true] at hb
    have hbound : Reached (Store.staleSubject { s with permissions := s.permissions.insert row }
        maxDepth b.subjectType b.subject) names principal ctx := reached_of_bindsTo hb.2.2
    refine hbound.mono fun item hi => ?_
    refine List.mem_append_right _ (List.mem_append_right _ (List.mem_flatMap.mpr ⟨b, ?_, hi⟩))
    exact List.mem_filter.mpr ⟨hb.1, by simp [ht]⟩

lemma unmoved_binding {row : Binding}
    (hrow : ¬ Reached (({ s with bindings := s.bindings.insert row } : Store).staleItems maxDepth
      (.ofBinding row)) names principal ctx)
    (hold : ∀ old, s.binding? row.id = some old →
      ¬ Reached (({ s with bindings := s.bindings.insert row } : Store).staleItems maxDepth
        (.ofBinding old)) names principal ctx) :
    s.Unmoved { s with bindings := s.bindings.insert row } maxDepth names principal ctx := by
  refine { Unmoved.refl s maxDepth names principal ctx with bindings := ?_ }
  have hnot : ∀ {b : Binding},
      ¬ Reached (({ s with bindings := s.bindings.insert row } : Store).staleItems maxDepth
        (.ofBinding b)) names principal ctx →
      (b.isActive && ctx.organization.all (· == b.organization) &&
        bindsTo principal (s.groupsOf maxDepth principal ctx) b) = false := by
    intro b hb
    rw [← Bool.not_eq_true, Bool.and_eq_true]
    exact fun h => hb
      (reached_of_binding (s := { s with bindings := s.bindings.insert row }) h.2)
  refine Table.filter_put_of_not (hnot hrow) fun old ho he => hnot (hold old ?_)
  exact Table.get?_eq_some.mpr ⟨ho, he⟩

lemma unmoved_inheritance {edge : Inheritance}
    (hn : ¬ Reached (({ s with inheritance := s.inheritance ++ [edge] } : Store).staleItems maxDepth
      (.inheritance edge.parent edge.child)) names principal ctx) :
    s.Unmoved { s with inheritance := s.inheritance ++ [edge] } maxDepth names principal ctx := by
  refine { Unmoved.refl s maxDepth names principal ctx with walk := ?_ }
  refine GroupWalk.inherited_append edge fun hm => hn ?_
  obtain ⟨root, hroot, organization, n, hle, hp⟩ := GroupWalk.mem_inherited hm
  apply reached_of_root (s := { s with inheritance := s.inheritance ++ [edge] }) hroot
  exact mem_groupSubtree
    (hp.root_below.mono fun e he => List.mem_append_left _ he) hle

lemma unmoved (h : s.Edit s' changes)
    (hn : ∀ c ∈ changes, ¬ Reached (s'.staleItems maxDepth c) names principal ctx) :
    s.Unmoved s' maxDepth names principal ctx := by
  have hrole : ∀ {c role}, c ∈ changes → Stale.role role ∈ s'.staleItems maxDepth c →
      ∀ r ∈ names, r ≠ role := by
    rintro c role hc hi r hr rfl
    exact hn c hc ⟨_, hi, hr⟩
  have hprincipal : ∀ {c p}, c ∈ changes → Stale.principal p ∈ s'.staleItems maxDepth c →
      principal ≠ p := by
    rintro c p hc hi rfl
    exact hn c hc ⟨_, hi, rfl⟩
  cases h with
  | role _ => exact { Unmoved.refl s maxDepth names principal ctx with }
  | userRoles _ hrows =>
    have hne := hprincipal List.mem_cons_self List.mem_cons_self
    exact { Unmoved.refl s maxDepth names principal ctx with userRoles := hrows _ hne }
  | permission => exact unmoved_permission (hn _ List.mem_cons_self)
  | links hrows =>
    have hne := hrole List.mem_cons_self List.mem_cons_self
    refine { Unmoved.refl s maxDepth names principal ctx with carries := ?_ }
    intro r hr request model
    cases model with
    | direct => exact Iff.rfl
    | named => exact linkedGrant_congr (hrows r (hne r hr)) fun _ _ _ => Iff.rfl
  | grants hrows =>
    have hne := hrole List.mem_cons_self List.mem_cons_self
    refine { Unmoved.refl s maxDepth names principal ctx with carries := ?_ }
    intro r hr request model
    cases model with
    | direct => exact directGrant_congr (hrows r (hne r hr))
    | named => exact Iff.rfl
  | binding _ hrow hold => exact unmoved_binding (hn _ hrow) fun old ho => hn _ (hold old ho)
  | @groupRoles group role rows _ hrows =>
    refine { Unmoved.refl s maxDepth names principal ctx with groupRoles := ?_ }
    intro g hg
    apply hrows g
    rintro rfl
    refine hn _ List.mem_cons_self ((?_ : Reached (Store.staleSubtree { s with groupRoles := rows }
      maxDepth g) names principal ctx).mono fun item hi => List.mem_append_right _ hi)
    rcases hg with hg | hg
    · exact reached_of_member (s := { s with groupRoles := rows }) hg
    · exact reached_of_group (s := { s with groupRoles := rows }) hg
  | memberships _ hrows =>
    have hne := hprincipal List.mem_cons_self List.mem_cons_self
    exact { Unmoved.refl s maxDepth names principal ctx with memberships := hrows _ hne }
  | inheritance _ => exact unmoved_inheritance (hn _ List.mem_cons_self)
  | attributes _ hrows =>
    have hne := hprincipal List.mem_cons_self List.mem_cons_self
    exact { Unmoved.refl s maxDepth names principal ctx with attributes := hrows _ hne _ }

end Edit

end Store

end AccessControl
