import AccessControl.Proofs.GroupWalks
import AccessControl.Proofs.RoleChains

/-! The effective roles are those within the depth limit above a seed: a role that rows of the
store give to the principal, to a group it acts through or to everyone in the organization. The
roles of a binding are those within the limit above the role that is bound. -/

namespace AccessControl

namespace Store

def MemberOf (s : Store) (now : Instant) (principal group : String) : Prop :=
  ∃ m ∈ s.memberships, m.principal = principal ∧ m.group = group ∧ m.isEffective now = true

def GroupHas (s : Store) (now : Instant) (group role : String) : Prop :=
  ∃ g ∈ s.groupRoles, g.group = group ∧ g.role = role ∧ g.isEffective now = true

def Assigned (s : Store) (now : Instant) (principal : String) (u : UserRole) : Prop :=
  u.principal = principal ∧ u.isEffective now = true ∧
    ∀ g, u.sourceGroup = some g → s.MemberOf now principal g ∧ s.GroupHas now g u.role

def DefaultIn (s : Store) (organization role : String) : Prop :=
  ∃ r ∈ s.roles.rows, r.id = role ∧ r.isDefault = true ∧ r.isLive = true ∧
    r.visibleIn organization = true

/-- A role that resolution starts from. -/
inductive Seed (s : Store) (principal : String) (ctx : Context) (held : String → Prop) :
    String → Prop
  | assigned {u} : u ∈ s.userRoles → s.Assigned ctx.now principal u →
      Seed s principal ctx held u.role
  | group {g role} : held g → s.GroupHas ctx.now g role → Seed s principal ctx held role
  | default {organization role} : ctx.organization = some organization →
      s.DefaultIn organization role → Seed s principal ctx held role

variable {s : Store} {maxDepth : Nat} {principal : String} {ctx : Context} {now : Instant}

lemma mem_memberGroups {g : String} :
    g ∈ s.memberGroups principal now ↔ s.MemberOf now principal g := by
  rw [memberGroups, Text.mem_sortedDistinct, List.mem_map]
  simp only [List.mem_filter, membershipsOf, beq_iff_eq, MemberOf]
  constructor
  · rintro ⟨m, ⟨⟨hm, hp⟩, he⟩, hg⟩
    exact ⟨m, hm, hp, hg, he⟩
  · rintro ⟨m, hm, hp, hg, he⟩
    exact ⟨m, ⟨⟨hm, hp⟩, he⟩, hg⟩

lemma groupGrants_iff {g role : String} :
    (s.groupGrants g role now).1 = true ↔ s.GroupHas now g role := by
  simp only [groupGrants, List.any_eq_true, List.mem_filter, groupRolesOf, beq_iff_eq,
    Bool.and_eq_true, GroupHas]
  constructor
  · rintro ⟨r, ⟨⟨hr, hg⟩, hrole, -⟩, he⟩
    exact ⟨r, hr, hg, hrole, he⟩
  · rintro ⟨r, hr, hg, hrole, he⟩
    have ha : r.isActive = true := (Bool.and_eq_true _ _ ▸ he : r.isActive = true ∧ _).1
    exact ⟨r, ⟨⟨hr, hg⟩, hrole, ha⟩, he⟩

lemma mem_rootGroups {g : String} :
    g ∈ s.rootGroups principal ctx ↔ s.MemberOf ctx.now principal g ∨ ctx.group = some g := by
  rw [← mem_memberGroups]
  rw [rootGroups]
  cases hg : ctx.group with
  | none => simp
  | some g' =>
    simp only [Option.some.injEq]
    split
    · rename_i hm
      constructor
      · exact Or.inl
      · rintro (h | rfl)
        · exact h
        · simpa using hm
    · simp [eq_comm]

end Store

namespace Collected

variable (s : Store) (maxDepth : Nat) (organization : Option String)

structure Spans (start : String → Prop) (c : Collected) : Prop where
  grounded : c.Grounded s maxDepth organization start
  closed : c.Closed s maxDepth organization
  begun : ∀ a role, start a → s.Usable organization a role → c.Has a 0

variable {s maxDepth organization}

lemma spans_empty : empty.Spans s maxDepth organization fun _ => False :=
  ⟨by simp [Grounded, empty], by simp [Closed, empty], fun _ _ h => h.elim⟩

variable {start start' : String → Prop} {c : Collected}

lemma Spans.congr (h : c.Spans s maxDepth organization start) (he : ∀ a, start a ↔ start' a) :
    c.Spans s maxDepth organization start' := by
  obtain rfl : start = start' := funext fun a => propext (he a)
  exact h

lemma Spans.boundBy (h : c.Spans s maxDepth organization start) (bound : Option Instant) :
    (c.boundBy bound).Spans s maxDepth organization start :=
  ⟨h.grounded, h.closed, h.begun⟩

lemma Grounded.mono (h : c.Grounded s maxDepth organization start)
    (hle : ∀ a, start a → start' a) : c.Grounded s maxDepth organization start' := by
  intro r hr
  obtain ⟨hd, hu, a, ha, hp⟩ := h r hr
  exact ⟨hd, hu, a, hle a ha, hp⟩

lemma Spans.withChain (h : c.Spans s maxDepth organization start) (a : String)
    (via : Provenance) :
    (c.withChain s maxDepth organization a via).Spans s maxDepth organization
      fun b => start b ∨ b = a := by
  have hg : c.Grounded s maxDepth organization fun b => start b ∨ b = a :=
    h.grounded.mono fun _ => Or.inl
  refine ⟨grounded_withChain hg h.closed (Or.inr rfl), closed_withChain hg h.closed (Or.inr rfl),
    ?_⟩
  rintro b role (hb | rfl) hu
  · exact le_withChain c a via (h.begun b role hb hu)
  · exact has_withChain hg h.closed (Or.inr rfl) hu

lemma Spans.foldl {α : Type} {f : Collected → α → Collected} {adds : α → String → Prop}
    {rows : List α}
    (hf : ∀ r ∈ rows, ∀ {start c}, Spans s maxDepth organization start c →
      (f c r).Spans s maxDepth organization fun b => start b ∨ adds r b)
    (h : c.Spans s maxDepth organization start) :
    (rows.foldl f c).Spans s maxDepth organization
      fun b => start b ∨ ∃ r ∈ rows, adds r b := by
  induction rows generalizing start c with
  | nil => simpa using h
  | cons r rows ih =>
    refine (ih (fun r' hr' => hf r' (List.mem_cons_of_mem _ hr'))
      (hf r List.mem_cons_self h)).congr fun b => ?_
    simp only [List.mem_cons, exists_eq_or_imp, or_assoc]

lemma Spans.has_iff (h : c.Spans s maxDepth organization start) {id : String} {n : Nat}
    (hn : n ≤ maxDepth) :
    c.Has id n ↔ ∃ a, start a ∧ ∃ m ≤ n, s.RolePath organization m a id := by
  constructor
  · rintro ⟨r, hr, rfl, hd⟩
    obtain ⟨-, -, a, ha, hp⟩ := h.grounded r hr
    exact ⟨a, ha, r.depth, hd, hp⟩
  · rintro ⟨a, ha, m, hm, hp⟩
    obtain ⟨role, hu⟩ := hp.usable_start
    exact (h.closed.has_of_path h.grounded hp (h.begun a role ha hu)
      (Nat.le_trans hm hn)).mono hm

lemma Spans.mem_iff (h : c.Spans s maxDepth organization start) {id : String} :
    id ∈ c.roles.map (·.role.id) ↔
      ∃ a, start a ∧ ∃ n ≤ maxDepth, s.RolePath organization n a id := by
  rw [← h.has_iff (Nat.le_refl _), List.mem_map]
  constructor
  · rintro ⟨r, hr, hi⟩
    exact ⟨r, hr, hi, (h.grounded r hr).1⟩
  · rintro ⟨r, hr, hi, -⟩
    exact ⟨r, hr, hi⟩

end Collected

namespace Store

variable {s : Store} {maxDepth : Nat} {principal : String} {ctx : Context}

lemma spans_collectUserRole {start : String → Prop} {c : Collected}
    (hc : c.Spans s maxDepth ctx.organization start) {u : UserRole} (hp : u.principal = principal) :
    (s.collectUserRole maxDepth (s.memberGroups principal ctx.now) ctx c u).Spans s maxDepth
      ctx.organization fun b => start b ∨ s.Assigned ctx.now principal u ∧ u.role = b := by
  rw [collectUserRole]
  simp only
  split
  · rename_i he
    split
    · rename_i hs
      refine ((hc.boundBy _).withChain u.role .direct).congr fun b => or_congr_right ?_
      have ha : s.Assigned ctx.now principal u := ⟨hp, he, by simp [hs]⟩
      simp [ha, eq_comm]
    · rename_i g hs
      have ha : s.Assigned ctx.now principal u ↔
          s.MemberOf ctx.now principal g ∧ s.GroupHas ctx.now g u.role := by
        simp [Assigned, hp, he, hs]
      split
      · rename_i hm
        have hm := mem_memberGroups.mp (List.contains_iff_mem.mp hm)
        split
        · rename_i hg
          have hg := groupGrants_iff.mp hg
          refine (((hc.boundBy _).boundBy _).withChain u.role (.viaGroup g)).congr
            fun b => or_congr_right ?_
          simp [ha, hm, hg, eq_comm]
        · rename_i hg
          refine ((hc.boundBy _).boundBy _).congr fun b => ?_
          have hg : ¬ s.GroupHas ctx.now g u.role := fun h => hg (groupGrants_iff.mpr h)
          simp [ha, hg]
      · rename_i hm
        refine (hc.boundBy _).congr fun b => ?_
        have hm : ¬ s.MemberOf ctx.now principal g := fun h =>
          hm (List.contains_iff_mem.mpr (mem_memberGroups.mpr h))
        simp [ha, hm]
  · rename_i he
    refine (hc.boundBy _).congr fun b => ?_
    simp [Assigned, he]

lemma spans_userRoles {start : String → Prop} {c : Collected}
    (h : c.Spans s maxDepth ctx.organization start) :
    ((s.userRolesOf principal).foldl
      (s.collectUserRole maxDepth (s.memberGroups principal ctx.now) ctx) c).Spans s maxDepth
      ctx.organization
      fun b => start b ∨ ∃ u ∈ s.userRoles, s.Assigned ctx.now principal u ∧ u.role = b := by
  refine (Collected.Spans.foldl (fun u hu {_ _} hc => spans_collectUserRole hc ?_) h).congr
    fun b => or_congr_right ?_
  · simpa using (List.mem_filter.mp hu).2
  constructor
  · rintro ⟨u, hu, ha⟩
    exact ⟨u, (List.mem_filter.mp hu).1, ha⟩
  · rintro ⟨u, hu, ha⟩
    exact ⟨u, List.mem_filter.mpr ⟨hu, by simpa using ha.1.1⟩, ha⟩

lemma spans_collectGroupRole {start : String → Prop} {c : Collected}
    (hc : c.Spans s maxDepth ctx.organization start) (g : String) (r : GroupRole) :
    (s.collectGroupRole maxDepth ctx g c r).Spans s maxDepth ctx.organization
      fun b => start b ∨ r.isEffective ctx.now = true ∧ r.role = b := by
  unfold collectGroupRole
  simp only
  split
  · rename_i he
    refine ((hc.boundBy _).withChain r.role (.viaGroup g)).congr fun b => or_congr_right ?_
    simp [he, eq_comm]
  · rename_i he
    refine (hc.boundBy _).congr fun b => ?_
    simp [he]

lemma spans_groupRoles {start : String → Prop} {c : Collected} (groups : List String)
    (h : c.Spans s maxDepth ctx.organization start) :
    (groups.foldl (s.collectGroup maxDepth ctx) c).Spans s maxDepth ctx.organization
      fun b => start b ∨ ∃ g ∈ groups, s.GroupHas ctx.now g b := by
  refine Collected.Spans.foldl (fun g _ {start c} hc => ?_) h
  refine (Collected.Spans.foldl (fun r _ {_ _} hc => spans_collectGroupRole hc g r) hc).congr
    fun b => or_congr_right ?_
  constructor
  · rintro ⟨r, hr, he, rfl⟩
    obtain ⟨hr, hg⟩ := List.mem_filter.mp hr
    exact ⟨r, hr, by simpa using hg, rfl, he⟩
  · rintro ⟨r, hr, hg, hrole, he⟩
    exact ⟨r, List.mem_filter.mpr ⟨hr, by simpa using hg⟩, he, hrole⟩

lemma spans_defaults {start : String → Prop} {c : Collected}
    (h : c.Spans s maxDepth ctx.organization start) :
    (s.collectDefaults maxDepth ctx c).Spans s maxDepth ctx.organization
      fun b => start b ∨ ∃ organization, ctx.organization = some organization ∧
        s.DefaultIn organization b := by
  rw [collectDefaults]
  cases ho : ctx.organization with
  | none => exact (ho ▸ h).congr fun b => by simp
  | some organization =>
    have hf : ∀ r ∈ s.defaultRoles organization, ∀ {start c}, Collected.Spans s maxDepth
        (some organization) start c →
        (c.withChain s maxDepth (some organization) r.id (.viaOrganization organization)).Spans s
          maxDepth (some organization) fun b => start b ∨ r.id = b :=
      fun r _ start c hc => (hc.withChain r.id _).congr fun b => by simp [eq_comm]
    refine (Collected.Spans.foldl hf (ho ▸ h)).congr fun b => or_congr_right ?_
    simp only [defaultRoles, List.mem_filter, Bool.and_eq_true, DefaultIn, Option.some.injEq,
      exists_eq_left']
    constructor
    · rintro ⟨r, ⟨hr, ⟨hd, hl⟩, hv⟩, hi⟩
      exact ⟨r, hr, hi, hd, hl, hv⟩
    · rintro ⟨r, hr, hi, hd, hl, hv⟩
      exact ⟨r, ⟨hr, ⟨hd, hl⟩, hv⟩, hi⟩

def groupsOf (s : Store) (maxDepth : Nat) (principal : String) (ctx : Context) : List String :=
  (GroupWalk.inherited s maxDepth ctx.now (s.rootGroups principal ctx)).groups

def collected (s : Store) (maxDepth : Nat) (principal : String) (ctx : Context) : Collected :=
  s.collectDefaults maxDepth ctx
    ((s.groupsOf maxDepth principal ctx).foldl (s.collectGroup maxDepth ctx)
      (((s.userRolesOf principal).foldl
        (s.collectUserRole maxDepth (s.memberGroups principal ctx.now) ctx)
        (Collected.empty.boundBy (s.membershipBound principal ctx.now))).boundBy
          (GroupWalk.inherited s maxDepth ctx.now (s.rootGroups principal ctx)).validUntil))

lemma spans_collected (s : Store) (maxDepth : Nat) (principal : String) (ctx : Context) :
    (s.collected maxDepth principal ctx).Spans s maxDepth ctx.organization
      (s.Seed principal ctx (· ∈ s.groupsOf maxDepth principal ctx)) := by
  refine (spans_defaults (spans_groupRoles _
    ((spans_userRoles (Collected.spans_empty.boundBy _)).boundBy _))).congr fun b => ?_
  constructor
  · rintro (((h | ⟨u, hu, ha, rfl⟩) | ⟨g, hg, hr⟩) | ⟨organization, ho, hd⟩)
    · exact h.elim
    · exact .assigned hu ha
    · exact .group hg hr
    · exact .default ho hd
  · intro h
    cases h with
    | assigned hu ha => exact Or.inl (Or.inl (Or.inr ⟨_, hu, ha, rfl⟩))
    | group hg hr => exact Or.inl (Or.inr ⟨_, hg, hr⟩)
    | default ho hd => exact Or.inr ⟨_, ho, hd⟩

lemma effectiveRoles_eq (s : Store) (maxDepth : Nat) (principal : String) (ctx : Context) :
    s.effectiveRoles maxDepth principal ctx =
      let c := s.collected maxDepth principal ctx
      let grants := s.conditionalGrants maxDepth ctx
        (s.bindingsFor principal (s.groupsOf maxDepth principal ctx) ctx)
      ⟨c.roles, grants.map (·.1), c.truncated ||
        (GroupWalk.inherited s maxDepth ctx.now (s.rootGroups principal ctx)).truncated ||
          grants.any (·.2), c.validUntil⟩ := rfl

lemma mem_ids {id : String} :
    id ∈ (s.effectiveRoles maxDepth principal ctx).ids ↔
      ∃ a, s.Seed principal ctx (· ∈ s.groupsOf maxDepth principal ctx) a ∧
        ∃ n ≤ maxDepth, s.RolePath ctx.organization n a id :=
  (spans_collected s maxDepth principal ctx).mem_iff

lemma spans_boundRoles {b : Binding} {role : String} (hb : b.role? = some role) :
    (s.boundRoles maxDepth ctx b).Spans s maxDepth ctx.organization (· = role) := by
  simp only [boundRoles, hb]
  exact (Collected.spans_empty.withChain role _).congr fun a => by simp

lemma mem_boundRoles {b : Binding} {id : String} :
    id ∈ (s.boundRoles maxDepth ctx b).roles.map (·.role.id) ↔
      ∃ role, b.role? = some role ∧ ∃ n ≤ maxDepth, s.RolePath ctx.organization n role id := by
  cases hb : b.role? with
  | none => simp [boundRoles, hb, Collected.empty]
  | some role => rw [(spans_boundRoles hb).mem_iff]; simp

lemma bindsTo_iff {groups : List String} {b : Binding} :
    bindsTo principal groups b = true ↔
      b.subjectType ≠ .group ∧ b.subject = principal ∨
        b.subjectType = .group ∧ b.subject ∈ groups := by
  unfold bindsTo
  cases b.subjectType <;> simp

lemma mem_bindingsFor {groups : List String} {b : Binding} :
    b ∈ s.bindingsFor principal groups ctx ↔ b ∈ s.bindings.rows ∧ b.isActive = true ∧
      (∀ organization, ctx.organization = some organization → b.organization = organization) ∧
        (b.subjectType ≠ .group ∧ b.subject = principal ∨
          b.subjectType = .group ∧ b.subject ∈ groups) := by
  rw [bindingsFor, List.mem_filter, Bool.and_eq_true, Bool.and_eq_true, bindsTo_iff, and_assoc]
  cases ctx.organization with
  | none => simp
  | some organization =>
    simp only [Option.all_some, beq_iff_eq, Option.some.injEq, forall_eq',
      eq_comm (b := b.organization)]

lemma mem_conditional {g : ConditionalGrant} :
    g ∈ (s.effectiveRoles maxDepth principal ctx).conditional ↔
      ∃ b ∈ s.bindingsFor principal (s.groupsOf maxDepth principal ctx) ctx,
        g = ⟨b, (s.boundRoles maxDepth ctx b).roles⟩ ∧ (b.role?.isSome = true → g.roles ≠ []) := by
  simp only [effectiveRoles, conditionalGrants, List.mem_map, List.mem_filterMap]
  constructor
  · rintro ⟨⟨g', truncated⟩, ⟨b, hb, h⟩, rfl⟩
    split at h
    · simp at h
    · rename_i hne
      obtain ⟨rfl, -⟩ := Prod.mk.inj (Option.some.inj h)
      refine ⟨b, hb, rfl, ?_⟩
      intro hr he
      exact hne (by rw [hr, Bool.true_and, List.isEmpty_iff]; exact he)
  · rintro ⟨b, hb, rfl, hne⟩
    refine ⟨(⟨b, _⟩, (s.boundRoles maxDepth ctx b).truncated), ⟨b, hb, ?_⟩, rfl⟩
    rw [if_neg]
    simpa using hne

end Store

end AccessControl
