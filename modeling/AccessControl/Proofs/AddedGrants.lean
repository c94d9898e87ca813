import AccessControl.Proofs.Dangling
import AccessControl.Proofs.Uncached
import Mathlib.Logic.Relation

/-! Grants only add. Whatever one more row says, the groups are the same, each role that was found
is found again, and what carried a grant or let a binding pass still does. So what was allowed stays
allowed. -/

namespace AccessControl

namespace Store

/-- One more row that may grant something, anywhere among the rows of its kind. A binding has an id
that no other one has. -/
inductive Adds (s : Store) : Store → Prop
  | userRole {before after : List UserRole} (row : UserRole) : s.userRoles = before ++ after →
      Adds s { s with userRoles := before ++ row :: after }
  | groupRole {before after : List GroupRole} (row : GroupRole) : s.groupRoles = before ++ after →
      Adds s { s with groupRoles := before ++ row :: after }
  | rolePermission {before after : List RolePermission} (row : RolePermission) :
      s.rolePermissions = before ++ after →
      Adds s { s with rolePermissions := before ++ row :: after }
  | resourcePermission {before after : List ResourcePermission} (row : ResourcePermission) :
      s.resourcePermissions = before ++ after →
      Adds s { s with resourcePermissions := before ++ row :: after }
  | binding (row : Binding) : s.binding? row.id = none →
      Adds s { s with bindings := s.bindings.insert row }

structure Grown (s s' : Store) : Prop where
  rest : s' = { s with
    userRoles := s'.userRoles
    groupRoles := s'.groupRoles
    rolePermissions := s'.rolePermissions
    resourcePermissions := s'.resourcePermissions
    bindings := s'.bindings }
  userRoles : s.userRoles ⊆ s'.userRoles
  groupRoles : s.groupRoles ⊆ s'.groupRoles
  rolePermissions : s.rolePermissions ⊆ s'.rolePermissions
  resourcePermissions : s.resourcePermissions ⊆ s'.resourcePermissions
  bindings : s.bindings.rows ⊆ s'.bindings.rows

lemma subset_of_inserted {α : Type} {rows before after : List α} (row : α)
    (h : rows = before ++ after) : rows ⊆ before ++ row :: after :=
  h ▸ List.append_subset.mpr
    ⟨List.subset_append_left _ _, fun _ hx => List.mem_append_right _ (List.mem_cons_of_mem _ hx)⟩

lemma Adds.grown {s s' : Store} (h : s.Adds s') : s.Grown s' := by
  cases h with
  | userRole row hrows =>
    exact ⟨rfl, subset_of_inserted row hrows, .refl _, .refl _, .refl _, .refl _⟩
  | groupRole row hrows =>
    exact ⟨rfl, .refl _, subset_of_inserted row hrows, .refl _, .refl _, .refl _⟩
  | rolePermission row hrows =>
    exact ⟨rfl, .refl _, .refl _, subset_of_inserted row hrows, .refl _, .refl _⟩
  | resourcePermission row hrows =>
    exact ⟨rfl, .refl _, .refl _, .refl _, subset_of_inserted row hrows, .refl _⟩
  | binding row hid =>
    refine ⟨rfl, .refl _, .refl _, .refl _, .refl _, fun b hb =>
      Table.mem_insert.mpr (Or.inr ⟨hb, fun he => ?_⟩)⟩
    have hget : s.binding? row.id = some b := Table.get?_eq_some.mpr ⟨hb, he⟩
    rw [hget] at hid
    cases hid

namespace Grown

variable {s s' : Store} {maxDepth : Nat} {principal : String} {ctx : Context}

lemma refl (s : Store) : s.Grown s :=
  ⟨rfl, .refl _, .refl _, .refl _, .refl _, .refl _⟩

lemma trans {s'' : Store} (h : s.Grown s') (h' : s'.Grown s'') : s.Grown s'' where
  rest := by
    rw [h'.rest, h.rest]
  userRoles := List.Subset.trans h.userRoles h'.userRoles
  groupRoles := List.Subset.trans h.groupRoles h'.groupRoles
  rolePermissions := List.Subset.trans h.rolePermissions h'.rolePermissions
  resourcePermissions := List.Subset.trans h.resourcePermissions h'.resourcePermissions
  bindings := List.Subset.trans h.bindings h'.bindings

lemma of_many (h : Relation.ReflTransGen Adds s s') : s.Grown s' := by
  induction h with
  | refl => exact .refl s
  | tail _ hadds ih => exact ih.trans hadds.grown

lemma roles (h : s.Grown s') : s'.roles = s.roles := by
  rw [h.rest]

lemma available (h : s.Grown s') : s'.available = s.available := by
  rw [h.rest]

lemma groupsOf (h : s.Grown s') :
    s'.groupsOf maxDepth principal ctx = s.groupsOf maxDepth principal ctx := by
  rw [h.rest]
  rfl

lemma memberOf (h : s.Grown s') {now : Instant} {group : String} :
    s'.MemberOf now principal group ↔ s.MemberOf now principal group := by
  rw [h.rest]
  rfl

lemma permissionCovers (h : s.Grown s') {permission : String} {request : GrantRequest} :
    s'.PermissionCovers permission request ↔ s.PermissionCovers permission request := by
  rw [h.rest]
  rfl

lemma caveatPasses (h : s.Grown s') {b : Binding} {now : Instant} :
    s'.CaveatPasses b principal now ↔ s.CaveatPasses b principal now := by
  rw [h.rest]
  rfl

lemma groupHas (h : s.Grown s') {now : Instant} {group role : String}
    (hg : s.GroupHas now group role) : s'.GroupHas now group role := by
  obtain ⟨g, hm, hspec⟩ := hg
  exact ⟨g, h.groupRoles hm, hspec⟩

lemma assigned (h : s.Grown s') {now : Instant} {u : UserRole}
    (hu : s.Assigned now principal u) : s'.Assigned now principal u := by
  obtain ⟨hp, he, hsource⟩ := hu
  refine ⟨hp, he, fun g hg => ?_⟩
  obtain ⟨hm, hhas⟩ := hsource g hg
  exact ⟨h.memberOf.mpr hm, h.groupHas hhas⟩

lemma seed (h : s.Grown s') {held : String → Prop} {role : String}
    (hs : s.Seed principal ctx held role) : s'.Seed principal ctx held role := by
  cases hs with
  | assigned hu ha => exact .assigned (h.userRoles hu) (h.assigned ha)
  | group hg hr => exact .group hg (h.groupHas hr)
  | default ho hd =>
    refine .default ho ?_
    rw [DefaultIn, h.roles]
    exact hd

lemma bindingsFor (h : s.Grown s') {groups : List String} :
    s.bindingsFor principal groups ctx ⊆ s'.bindingsFor principal groups ctx :=
  List.filter_subset _ h.bindings

lemma effectiveRoles (h : s.Grown s') :
    (s.effectiveRoles maxDepth principal ctx).Under (s'.effectiveRoles maxDepth principal ctx) := by
  refine under_of_paths ?_ ?_ ?_
  · intro a ha n _ id hp
    rw [h.groupsOf]
    exact ⟨h.seed ha, hp.congr h.roles.symm⟩
  · intro b hb
    rw [h.groupsOf]
    exact h.bindingsFor hb
  · intro _ _ _ _ n _ id hp
    exact hp.congr h.roles.symm

variable {models : List GrantModel} {request : AccessRequest}

lemma carries (h : s.Grown s') {request : GrantRequest} {model : GrantModel} {role : String}
    (hc : s.Carries request model role) : s'.Carries request model role := by
  cases model with
  | named =>
    obtain ⟨l, hl, hrole, hactive, hcovers⟩ := hc
    exact ⟨l, h.rolePermissions hl, hrole, hactive, h.permissionCovers.mpr hcovers⟩
  | direct =>
    obtain ⟨p, hp, hspec⟩ := hc
    exact ⟨p, h.resourcePermissions hp, hspec⟩

lemma anyCarries (h : s.Grown s') {request : GrantRequest} {roles : List String}
    (hc : s.AnyCarries models request roles) : s'.AnyCarries models request roles := by
  obtain ⟨role, hr, model, hm, hc⟩ := hc
  exact ⟨role, hr, model, hm, h.carries hc⟩

lemma bindingGrants (h : s.Grown s') {request : GrantRequest} {g : ConditionalGrant}
    (hg : s.BindingGrants models request g) : s'.BindingGrants models request g := by
  unfold BindingGrants at hg ⊢
  cases ht : g.binding.target with
  | role role =>
    simp only [ht] at hg ⊢
    exact h.anyCarries hg
  | permission permission =>
    simp only [ht] at hg ⊢
    exact h.permissionCovers.mpr hg

lemma allows (h : s.Grown s') (ha : s.available = true) {roles : EffectiveRoles}
    (hs : s.Allows models roles request ctx) : s'.Allows models roles request ctx := by
  have ha' : s'.available = true := h.available.trans ha
  rw [allows_iff ha] at hs
  rw [allows_iff ha']
  refine hs.imp_right (Or.imp h.anyCarries ?_)
  rintro ⟨g, hg, happlies, hcaveat, hgrants⟩
  exact ⟨g, hg, happlies, h.caveatPasses.mpr hcaveat, h.bindingGrants hgrants⟩

end Grown

end Store

namespace Engine

variable {σ : Type} [CacheService σ] {e : Engine σ} {s' : Store} {request : AccessRequest}
  {ctx : Context} {d : Decision}

lemma allowed_of_grown (hs : e.store.Grown s') (hc : e.cache = none)
    (h : (e.evaluate request ctx).1 = .ok d) (hd : d.allowed = true) :
    ∃ d', ({ e with store := s' }.evaluate request ctx).1 = .ok d' ∧ d'.allowed = true := by
  obtain ⟨ha, -⟩ := allowsNow_of_allowed hc h hd
  obtain ⟨d₀, hd₀, hgrants⟩ := evaluate_grants hc ha request ctx
  obtain rfl := Except.ok.inj (h.symm.trans hd₀)
  obtain ⟨hm, hnow⟩ := hgrants.mp hd
  obtain ⟨d', hd', hgrants'⟩ :=
    evaluate_grants (e := { e with store := s' }) hc (hs.available.trans ha) request ctx
  refine ⟨d', hd', hgrants'.mpr ⟨hm, ?_⟩⟩
  exact (hs.allows ha hnow).mono (hs.available.trans ha) hs.effectiveRoles

theorem allowed_of_adds_many (hs : Relation.ReflTransGen Store.Adds e.store s')
    (hc : e.cache = none) (h : (e.evaluate request ctx).1 = .ok d) (hd : d.allowed = true) :
    ∃ d', ({ e with store := s' }.evaluate request ctx).1 = .ok d' ∧ d'.allowed = true :=
  allowed_of_grown (.of_many hs) hc h hd

/-- No row that comes in takes away what was allowed: what is denied lacks a grant. -/
theorem allowed_of_adds (hs : e.store.Adds s') (hc : e.cache = none)
    (h : (e.evaluate request ctx).1 = .ok d) (hd : d.allowed = true) :
    ∃ d', ({ e with store := s' }.evaluate request ctx).1 = .ok d' ∧ d'.allowed = true :=
  allowed_of_grown hs.grown hc h hd

def boundReader : Engine MemoryCache where
  config := .standard
  models := [.named, .direct]
  store :=
    { Store.empty with
      roles := .ofList [.global "reader" "Reader"]
      bindings := .ofList [.attach "m" .user "ada" (.role "reader") "file" "acme"]
      resourcePermissions := [.typeLevel "p" "reader" "file" "read"] }
  cache := none
  audit := none
  metrics := none
  ids := ⟨0⟩
  elapsed := .zero

def elapsedBinding : Binding :=
  { Binding.attach "a" .user "ada" (.role "reader") "file" "acme" with
    caveat := some (Caveat.unconstrained.withWindow (.endingAt ⟨0, 0⟩)) }

theorem allowed_of_adds_elapsed :
    let request : AccessRequest := ⟨"ada", "file", "7", "read"⟩
    let ctx : Context := ⟨some "acme", none, ⟨60, 0⟩⟩
    let s := boundReader.store
    let s' : Store := { s with bindings := s.bindings.insert elapsedBinding }
    (∃ d, (boundReader.evaluate request ctx).1 = .ok d ∧ d.allowed = true) ∧
      ¬ s'.CaveatPasses elapsedBinding "ada" ⟨60, 0⟩ ∧ s.Adds s' ∧
      ∃ d, ({ boundReader with store := s' }.evaluate request ctx).1 = .ok d ∧
        d.allowed = true := by
  intro request ctx s s'
  have hadds : boundReader.store.Adds s' := .binding elapsedBinding (by decide +kernel)
  have hcaveat : ¬ s'.CaveatPasses elapsedBinding "ada" ⟨60, 0⟩ := fun h =>
    absurd ((h _ rfl).1 _ rfl) (by decide)
  have h : (boundReader.evaluate request ctx).1.toOption.any (·.allowed) = true := by decide +kernel
  cases hd : (boundReader.evaluate request ctx).1 with
  | error fault => simp [hd, Except.toOption] at h
  | ok d =>
    have ha : d.allowed = true := by simpa [hd, Except.toOption] using h
    exact ⟨⟨d, rfl, ha⟩, hcaveat, hadds, allowed_of_adds hadds rfl hd ha⟩

end Engine

end AccessControl
