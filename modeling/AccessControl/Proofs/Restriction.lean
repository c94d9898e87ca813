import AccessControl.Proofs.Decisions
import AccessControl.Proofs.Steadiness

/-! Role sets by what they grant: one grants no more than another. Resolution grants no more on a
store with fewer roles, and no less if the roles it names are left. -/

namespace AccessControl

structure Binding.Alike (b b' : Binding) : Prop where
  target : b.target = b'.target
  resourceType : b.resourceType = b'.resourceType
  resource : b.resource = b'.resource
  organization : b.organization = b'.organization
  caveat : ∀ {s : Store} {principal : String} {now : Instant},
    s.CaveatPasses b principal now ↔ s.CaveatPasses b' principal now

lemma Binding.Alike.refl (b : Binding) : b.Alike b := ⟨rfl, rfl, rfl, rfl, Iff.rfl⟩

lemma Binding.Alike.symm {b b' : Binding} (h : b.Alike b') : b'.Alike b :=
  ⟨h.target.symm, h.resourceType.symm, h.resource.symm, h.organization.symm, h.caveat.symm⟩

lemma Binding.Alike.trans {a b c : Binding} (h : a.Alike b) (h' : b.Alike c) : a.Alike c :=
  ⟨h.target.trans h'.target, h.resourceType.trans h'.resourceType, h.resource.trans h'.resource,
    h.organization.trans h'.organization, h.caveat.trans h'.caveat⟩

namespace EffectiveRoles

def names (e : EffectiveRoles) : List String :=
  e.all.map (·.role.id)

lemma mem_names {e : EffectiveRoles} {id : String} :
    id ∈ e.names ↔ id ∈ e.ids ∨ ∃ g ∈ e.conditional, id ∈ g.roles.map (·.role.id) := by
  simp only [names, all, ids, List.map_append, List.mem_append, List.map_flatMap,
    List.mem_flatMap]

lemma isEmpty_eq_false {e : EffectiveRoles} : e.isEmpty = false ↔ ∃ id, id ∈ e.names := by
  rw [← Bool.not_eq_true, isEmpty, Bool.and_eq_true, List.isEmpty_iff, List.all_eq_true]
  constructor
  · intro h
    by_contra hn
    refine h ⟨?_, fun g hg => ?_⟩
    · refine List.eq_nil_iff_forall_not_mem.mpr fun r hr => hn ⟨r.role.id, mem_names.mpr (Or.inl ?_)⟩
      exact List.mem_map_of_mem hr
    · rw [List.isEmpty_iff]
      refine List.eq_nil_iff_forall_not_mem.mpr fun r hr =>
        hn ⟨r.role.id, mem_names.mpr (Or.inr ⟨g, hg, ?_⟩)⟩
      exact List.mem_map_of_mem hr
  · rintro ⟨id, hid⟩ ⟨hr, hc⟩
    rcases mem_names.mp hid with hid | ⟨g, hg, hid⟩
    · simp [ids, hr] at hid
    · have := hc g hg
      rw [List.isEmpty_iff] at this
      simp [this] at hid

lemma eq_nil_of_ids {roles roles' : List EffectiveRole}
    (h : ∀ id ∈ roles.map (·.role.id), id ∈ roles'.map (·.role.id)) (hn : roles' = []) :
    roles = [] := by
  cases roles with
  | nil => rfl
  | cons r rest =>
    have := h r.role.id (by simp)
    simp [hn] at this

structure Under (e e' : EffectiveRoles) : Prop where
  ids : ∀ id ∈ e.ids, id ∈ e'.ids
  conditional : ∀ g ∈ e.conditional, ∃ g' ∈ e'.conditional, g.binding.Alike g'.binding ∧
    ∀ id ∈ g.roles.map (·.role.id), id ∈ g'.roles.map (·.role.id)

lemma Under.refl (e : EffectiveRoles) : e.Under e :=
  ⟨fun _ h => h, fun g hg => ⟨g, hg, .refl _, fun _ h => h⟩⟩

lemma Under.trans {a b c : EffectiveRoles} (h : a.Under b) (h' : b.Under c) : a.Under c := by
  refine ⟨fun id hid => h'.ids id (h.ids id hid), fun g hg => ?_⟩
  obtain ⟨g', hg', ha, hids⟩ := h.conditional g hg
  obtain ⟨g'', hg'', ha', hids'⟩ := h'.conditional g' hg'
  exact ⟨g'', hg'', ha.trans ha', fun id hid => hids' id (hids id hid)⟩

lemma Under.names {e e' : EffectiveRoles} (h : e.Under e') {id : String} (hid : id ∈ e.names) :
    id ∈ e'.names := by
  rcases mem_names.mp hid with hid | ⟨g, hg, hid⟩
  · exact mem_names.mpr (Or.inl (h.ids id hid))
  · obtain ⟨g', hg', -, hids⟩ := h.conditional g hg
    exact mem_names.mpr (Or.inr ⟨g', hg', hids id hid⟩)

end EffectiveRoles

namespace Store

def GrantsThrough (s : Store) (models : List GrantModel) (request : AccessRequest) (ctx : Context)
    (g : ConditionalGrant) : Prop :=
  g.binding.appliesTo request.type request.resource = true ∧
    s.CaveatPasses g.binding request.principal ctx.now ∧ s.BindingGrants models request.grant g

variable {s : Store} {models : List GrantModel} {request : AccessRequest} {ctx : Context}

lemma allows_iff (h : s.available = true) {e : EffectiveRoles} :
    s.Allows models e request ctx ↔ (∃ id, id ∈ e.names) ∧
      (s.AnyCarries models request.grant e.ids ∨
        ∃ g ∈ e.conditional, s.GrantsThrough models request ctx g) := by
  rw [Allows, EffectiveRoles.isEmpty_eq_false]
  refine and_congr_right fun _ => ?_
  constructor
  · rintro ⟨bound, hb⟩
    cases hb with
    | roles hc => exact Or.inl hc
    | @binding g outcome hg ha hc hp hgrants =>
      obtain ⟨outcome', hc', hpass⟩ := checkCaveat_ok h g.binding request.principal ctx
      obtain rfl := Except.ok.inj (hc.symm.trans hc')
      exact Or.inr ⟨g, hg, ha, hpass.mp hp, hgrants⟩
  · rintro (hc | ⟨g, hg, ha, hp, hgrants⟩)
    · exact ⟨none, .roles hc⟩
    · obtain ⟨outcome, hc, hpass⟩ := checkCaveat_ok h g.binding request.principal ctx
      exact ⟨_, .binding hg ha hc (hpass.mpr hp) hgrants⟩

lemma AnyCarries.mono {request : GrantRequest} {roles roles' : List String}
    (h : s.AnyCarries models request roles) (hle : ∀ id ∈ roles, id ∈ roles') :
    s.AnyCarries models request roles' := by
  obtain ⟨role, hr, hc⟩ := h
  exact ⟨role, hle role hr, hc⟩

lemma GrantsThrough.mono {g g' : ConditionalGrant} (h : s.GrantsThrough models request ctx g)
    (ha : g.binding.Alike g'.binding)
    (hids : ∀ id ∈ g.roles.map (·.role.id), id ∈ g'.roles.map (·.role.id)) :
    s.GrantsThrough models request ctx g' := by
  obtain ⟨happlies, hcaveat, hgrants⟩ := h
  refine ⟨?_, ha.caveat.mp hcaveat, ?_⟩
  · simpa only [Binding.appliesTo, ha.resourceType, ha.resource] using happlies
  · unfold BindingGrants at hgrants ⊢
    rw [← ha.target]
    cases ht : g.binding.target with
    | role role =>
      simp only [ht] at hgrants ⊢
      exact hgrants.mono hids
    | permission permission =>
      simp only [ht] at hgrants ⊢
      exact hgrants

lemma Allows.mono (h : s.available = true) {e e' : EffectiveRoles}
    (ha : s.Allows models e request ctx) (hle : e.Under e') :
    s.Allows models e' request ctx := by
  rw [allows_iff h] at ha ⊢
  obtain ⟨⟨id, hid⟩, ha⟩ := ha
  refine ⟨⟨id, hle.names hid⟩, ?_⟩
  rcases ha with hc | ⟨g, hg, hgrants⟩
  · exact Or.inl (hc.mono hle.ids)
  · obtain ⟨g', hg', halike, hids⟩ := hle.conditional g hg
    exact Or.inr ⟨g', hg', hgrants.mono halike hids⟩

def keeping (s : Store) (keep : String → Bool) : Store :=
  { s with roles := s.roles.only keep }

variable {keep : String → Bool} {maxDepth : Nat} {principal : String}
  {organization : Option String}

lemma usable_keeping {id : String} {role : Role} :
    (s.keeping keep).Usable organization id role ↔
      keep id = true ∧ s.Usable organization id role := by
  simp only [Usable, role?, keeping, Table.get?_only]
  by_cases h : keep id = true <;> simp [h]

lemma RolePath.of_keeping {n : Nat} {a id : String}
    (h : (s.keeping keep).RolePath organization n a id) : s.RolePath organization n a id := by
  induction h with
  | here hu => exact .here (usable_keeping.mp hu).2
  | @up n a id role parent above _ hr hp hu ih =>
    have hr' : s.role? id = some role := by
      simp only [role?, keeping, Table.get?_only] at hr
      split at hr
      · exact hr
      · simp at hr
    exact .up ih hr' hp (usable_keeping.mp hu).2

lemma RolePath.keeping {n : Nat} {a id : String} (h : s.RolePath organization n a id)
    (hkeep : ∀ m ≤ n, ∀ x, s.RolePath organization m a x → keep x = true) :
    (s.keeping keep).RolePath organization n a id := by
  induction h with
  | here hu => exact .here (usable_keeping.mpr ⟨hkeep 0 (Nat.le_refl _) _ (.here hu), hu⟩)
  | @up n a id role parent above hp hr hparent hu ih =>
    have hid := hkeep n (Nat.le_succ n) id hp
    have habove := hkeep (n + 1) (Nat.le_refl _) parent (.up hp hr hparent hu)
    refine .up (ih fun m hm => hkeep m (Nat.le_succ_of_le hm)) ?_ hparent
      (usable_keeping.mpr ⟨habove, hu⟩)
    simpa [role?, Store.keeping, Table.get?_only, hid] using hr

lemma seed_keeping {held : String → Prop} {role : String} :
    (s.keeping keep).Seed principal ctx held role → s.Seed principal ctx held role := by
  intro h
  cases h with
  | assigned hu ha => exact .assigned hu ha
  | group hg hr => exact .group hg hr
  | default ho hd =>
    obtain ⟨r, hr, hd⟩ := hd
    exact .default ho ⟨r, (List.mem_filter.mp hr).1, hd⟩

lemma Seed.keeping {held : String → Prop} {role : String} (h : s.Seed principal ctx held role)
    (hk : keep role = true) : (s.keeping keep).Seed principal ctx held role := by
  cases h with
  | assigned hu ha => exact .assigned hu ha
  | group hg hr => exact .group hg hr
  | default ho hd =>
    obtain ⟨r, hr, rfl, hd⟩ := hd
    exact .default ho ⟨r, List.mem_filter.mpr ⟨hr, hk⟩, rfl, hd⟩

lemma under_of_paths {s s' : Store} {maxDepth : Nat} {principal : String} {ctx : Context}
    (hids : ∀ a, s.Seed principal ctx (· ∈ s.groupsOf maxDepth principal ctx) a →
      ∀ n ≤ maxDepth, ∀ id, s.RolePath ctx.organization n a id →
        s'.Seed principal ctx (· ∈ s'.groupsOf maxDepth principal ctx) a ∧
          s'.RolePath ctx.organization n a id)
    (hbindings : ∀ b ∈ s.bindingsFor principal (s.groupsOf maxDepth principal ctx) ctx,
      b ∈ s'.bindingsFor principal (s'.groupsOf maxDepth principal ctx) ctx)
    (hbound : ∀ b ∈ s.bindingsFor principal (s.groupsOf maxDepth principal ctx) ctx, ∀ role,
      b.role? = some role → ∀ n ≤ maxDepth, ∀ id, s.RolePath ctx.organization n role id →
        s'.RolePath ctx.organization n role id) :
    (s.effectiveRoles maxDepth principal ctx).Under (s'.effectiveRoles maxDepth principal ctx) := by
  constructor
  · intro id hid
    obtain ⟨a, ha, n, hn, hp⟩ := mem_ids.mp hid
    obtain ⟨ha', hp'⟩ := hids a ha n hn id hp
    exact mem_ids.mpr ⟨a, ha', n, hn, hp'⟩
  · intro g hg
    obtain ⟨b, hb, rfl, hne⟩ := mem_conditional.mp hg
    have hroles : ∀ id ∈ (s.boundRoles maxDepth ctx b).roles.map (·.role.id),
        id ∈ (s'.boundRoles maxDepth ctx b).roles.map (·.role.id) := by
      intro id hid
      obtain ⟨role, hrole, n, hn, hp⟩ := mem_boundRoles.mp hid
      exact mem_boundRoles.mpr ⟨role, hrole, n, hn, hbound b hb role hrole n hn id hp⟩
    exact ⟨_, mem_conditional.mpr ⟨b, hbindings b hb, rfl, fun hr he =>
      hne hr (EffectiveRoles.eq_nil_of_ids hroles he)⟩, .refl b, hroles⟩

lemma keeping_under (s : Store) (keep : String → Bool) (maxDepth : Nat) (principal : String)
    (ctx : Context) :
    ((s.keeping keep).effectiveRoles maxDepth principal ctx).Under
      (s.effectiveRoles maxDepth principal ctx) :=
  under_of_paths (fun _ ha _ _ _ hp => ⟨seed_keeping ha, hp.of_keeping⟩) (fun _ hb => hb)
    fun _ _ _ _ _ _ _ hp => hp.of_keeping

lemma mem_names_of_boundRoles {s : Store} {maxDepth : Nat} {principal : String} {ctx : Context}
    {b : Binding} (hb : b ∈ s.bindingsFor principal (s.groupsOf maxDepth principal ctx) ctx)
    {role : String} (hrole : b.role? = some role) {n : Nat} (hn : n ≤ maxDepth) {id : String}
    (hp : s.RolePath ctx.organization n role id) :
    id ∈ (s.effectiveRoles maxDepth principal ctx).names := by
  have hid := mem_boundRoles.mpr ⟨role, hrole, n, hn, hp⟩
  refine EffectiveRoles.mem_names.mpr (Or.inr ⟨_, mem_conditional.mpr ⟨b, hb, rfl, ?_⟩, hid⟩)
  intro _ he
  have he : (s.boundRoles maxDepth ctx b).roles = [] := he
  simp [he] at hid

lemma under_keeping {s : Store} {keep : String → Bool} {maxDepth : Nat} {principal : String}
    {ctx : Context}
    (hkeep : ∀ id ∈ (s.effectiveRoles maxDepth principal ctx).names, keep id = true) :
    (s.effectiveRoles maxDepth principal ctx).Under
      ((s.keeping keep).effectiveRoles maxDepth principal ctx) := by
  refine under_of_paths ?_ (fun _ hb => hb) ?_
  · intro a ha n hn id hp
    have hk : ∀ m ≤ n, ∀ x, s.RolePath ctx.organization m a x → keep x = true :=
      fun m hm x hx => hkeep x (EffectiveRoles.mem_names.mpr
        (Or.inl (mem_ids.mpr ⟨a, ha, m, Nat.le_trans hm hn, hx⟩)))
    obtain ⟨role, hu⟩ := hp.usable_start
    exact ⟨ha.keeping (hk 0 (Nat.zero_le _) a (.here hu)), hp.keeping hk⟩
  · intro b hb role hrole n hn id hp
    refine hp.keeping fun m hm x hx => hkeep x ?_
    exact mem_names_of_boundRoles hb hrole (Nat.le_trans hm hn) hx

end Store

end AccessControl
