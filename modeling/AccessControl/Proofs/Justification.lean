import AccessControl.Proofs.Resolved
import AccessControl.Proofs.Uncached

/-! What justifies that a request is allowed, in terms of the stored rows alone. Nothing is allowed
without it. -/

namespace AccessControl

namespace Store

/-- An active group that the principal acts through: its own, the one it acts on behalf of, or one
that these inherit from within the depth limit. -/
def Held (s : Store) (maxDepth : Nat) (principal : String) (ctx : Context) (g : String) : Prop :=
  ∃ root, (s.MemberOf ctx.now principal root ∨ ctx.group = some root) ∧
    ∃ organization, ∃ n ≤ maxDepth, s.GroupPath ctx.now organization root n g

/-- The window holds the instant, and every required attribute is provided as required by the
effective attribute that comes last. -/
def CaveatHolds (s : Store) (b : Binding) (principal : String) (now : Instant) : Prop :=
  ∀ c, b.caveat = some c → (∀ w, c.window = some w → w.contains now = true) ∧
    ∀ r ∈ c.required, ∃ a, s.Provides principal b.organization now r.key a ∧
      (∀ a', s.Provides principal b.organization now r.key a' → a'.precedes a = true) ∧
      r.expected.agrees a.value = true

def BindsSubject (s : Store) (maxDepth : Nat) (principal : String) (ctx : Context) (b : Binding) :
    Prop :=
  match b.subjectType with
  | .user | .service => b.subject = principal
  | .group => s.Held maxDepth principal ctx b.subject

def BindsGrant (s : Store) (maxDepth : Nat) (request : GrantRequest) (ctx : Context) (b : Binding) :
    Prop :=
  match b.target with
  | .role role => ∃ id, ∃ n ≤ maxDepth, s.RolePath ctx.organization n role id ∧
      ∃ model, s.Carries request model id
  | .permission permission => s.PermissionCovers permission request

/-- Rows that justify allowing the request. -/
inductive Justified (s : Store) (maxDepth : Nat) (request : AccessRequest) (ctx : Context) : Prop
  | role {seed id n model} : s.Seed request.principal ctx (s.Held maxDepth request.principal ctx)
        seed →
      s.RolePath ctx.organization n seed id → n ≤ maxDepth →
      s.Carries request.grant model id → Justified s maxDepth request ctx
  | binding {b} : b ∈ s.bindings.rows → b.isActive = true →
      (∀ o, ctx.organization = some o → b.organization = o) →
      s.BindsSubject maxDepth request.principal ctx b → b.resourceType = request.type →
      (∀ r, b.resource = some r → r = request.resource) →
      s.CaveatHolds b request.principal ctx.now → s.BindsGrant maxDepth request.grant ctx b →
      Justified s maxDepth request ctx

variable {s : Store} {maxDepth : Nat} {principal : String} {ctx : Context}

lemma held_of_mem_groupsOf {g : String} (h : g ∈ s.groupsOf maxDepth principal ctx) :
    s.Held maxDepth principal ctx g := by
  obtain ⟨root, hr, organization, n, hn, hp⟩ := GroupWalk.mem_inherited h
  exact ⟨root, mem_rootGroups.mp hr, organization, n, hn, hp⟩

lemma Seed.mono {held held' : String → Prop} {role : String} (h : s.Seed principal ctx held role)
    (hle : ∀ g, held g → held' g) : s.Seed principal ctx held' role := by
  cases h with
  | assigned hu ha => exact .assigned hu ha
  | group hg hr => exact .group (hle _ hg) hr
  | default ho hd => exact .default ho hd

lemma CaveatPasses.holds {b : Binding} {now : Instant} (h : s.CaveatPasses b principal now) :
    s.CaveatHolds b principal now := by
  intro c hc
  obtain ⟨hw, hm⟩ := h c hc
  refine ⟨hw, fun r hr => ?_⟩
  obtain ⟨a, ha, hagrees⟩ := hm r hr
  obtain ⟨hp, hlast⟩ := CaveatCheck.choose_spec ha
  exact ⟨a, hp, hlast, hagrees⟩

lemma bindsSubject_of_bindsTo {b : Binding}
    (h : bindsTo principal (s.groupsOf maxDepth principal ctx) b = true) :
    s.BindsSubject maxDepth principal ctx b := by
  rw [bindsTo] at h
  rw [BindsSubject]
  cases hb : b.subjectType with
  | user => simpa [hb] using h
  | service => simpa [hb] using h
  | group => exact held_of_mem_groupsOf (by simpa [hb] using h)

lemma AllowsNow.justified {models : List GrantModel} {request : AccessRequest}
    (h : s.AllowsNow models maxDepth request ctx) (ha : s.available = true) :
    s.Justified maxDepth request ctx := by
  obtain ⟨-, bound, hb⟩ := h
  cases hb with
  | roles hc =>
    obtain ⟨id, hid, model, -, hc⟩ := hc
    obtain ⟨seed, hseed, n, hn, hp⟩ := mem_ids.mp hid
    exact .role (hseed.mono fun _ => held_of_mem_groupsOf) hp hn hc
  | @binding g outcome hg happlies hcaveat hpassed hgrants =>
    obtain ⟨b, hb, rfl, -⟩ := mem_conditional.mp hg
    simp only [bindingsFor, List.mem_filter, Bool.and_eq_true, Option.all_eq_true, beq_iff_eq] at hb
    obtain ⟨hrow, ⟨hactive, horganization⟩, hsubject⟩ := hb
    simp only [Binding.appliesTo, Bool.and_eq_true, Option.all_eq_true, beq_iff_eq] at happlies
    obtain ⟨outcome', hc', hpass⟩ := checkCaveat_ok ha b request.principal ctx
    obtain rfl := Except.ok.inj (hcaveat.symm.trans hc')
    refine .binding hrow hactive (fun o ho => (horganization o ho).symm)
      (bindsSubject_of_bindsTo hsubject) happlies.1 happlies.2 (hpass.mp hpassed).holds ?_
    rw [BindingGrants] at hgrants
    rw [BindsGrant]
    cases ht : b.target with
    | role role =>
      simp only [ht] at hgrants
      obtain ⟨id, hid, model, -, hc⟩ := hgrants
      obtain ⟨role', hrole, n, hn, hp⟩ := mem_boundRoles.mp hid
      obtain rfl : role = role' := by simpa [Binding.role?, ht] using hrole
      exact ⟨id, n, hn, hp, model, hc⟩
    | permission permission => simpa only [ht] using hgrants

end Store

namespace Engine

variable {σ : Type} [CacheService σ]

/-- Without a cache, what is allowed is justified by the rows of the store. -/
theorem justified_of_allowed (e : Engine σ) (hc : e.cache = none) (request : AccessRequest)
    (ctx : Context) {d : Decision} (h : (e.evaluate request ctx).1 = .ok d)
    (hd : d.allowed = true) : e.store.Justified e.maxDepth request ctx := by
  obtain ⟨ha, hallows⟩ := allowsNow_of_allowed hc h hd
  exact hallows.justified ha

def entangled : Engine MemoryCache where
  config := .standard
  models := [.named, .direct]
  store :=
    { Store.empty with
      roles := .ofList [{ Role.global "reader" "Reader" with parent := some "viewer" },
        { Role.global "viewer" "Viewer" with parent := some "reader" }]
      groups := .ofList [.root "staff" "Staff" "acme", .root "team" "Team" "acme"]
      memberships := [.ofUser "m" "team" "ada"]
      inheritance := [.between "i" "staff" "team", .between "j" "team" "staff"]
      groupRoles := [⟨"r", "staff", "reader", "acme", "", .unbounded, true⟩]
      resourcePermissions := [.typeLevel "p" "viewer" "doc" "read"] }
  cache := none
  audit := none
  metrics := none
  ids := ⟨0⟩
  elapsed := .zero

theorem justified_of_allowed_entangled :
    ∃ d, (entangled.evaluate ⟨"ada", "doc", "plan", "read"⟩ ⟨some "acme", none, ⟨0, 0⟩⟩).1 =
        .ok d ∧ d.allowed = true ∧
      entangled.store.Justified 8 ⟨"ada", "doc", "plan", "read"⟩ ⟨some "acme", none, ⟨0, 0⟩⟩ := by
  have h : ((entangled.evaluate ⟨"ada", "doc", "plan", "read"⟩
      ⟨some "acme", none, ⟨0, 0⟩⟩).1.toOption.any (·.allowed)) = true := by
    decide +kernel
  cases hd : (entangled.evaluate ⟨"ada", "doc", "plan", "read"⟩
      ⟨some "acme", none, ⟨0, 0⟩⟩).1 with
  | error fault => simp [hd, Except.toOption] at h
  | ok d =>
    have ha : d.allowed = true := by simpa [hd, Except.toOption] using h
    exact ⟨d, rfl, ha, justified_of_allowed entangled rfl _ _ hd ha⟩

end Engine

end AccessControl
