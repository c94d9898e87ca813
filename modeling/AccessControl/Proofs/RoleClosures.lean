import AccessControl.Proofs.Resolved
import Mathlib.Data.List.Nodup
import Mathlib.Order.Bounds.Basic

/-! What resolution lists is the closure of the seeds under parent links, cut at the depth limit:
each role within the limit above a seed once, under the least number of links from any of them.
Unless the answer says that a branch was cut short, the parents of listed roles are listed. -/

namespace AccessControl

namespace Collected

def ids (c : Collected) : List String :=
  c.roles.map (·.role.id)

lemma ids_meet (c : Collected) (id : String) (via : Provenance) (depth : Nat) :
    (c.meet id via depth).ids = c.ids := by
  simp only [ids, meet, List.map_map]
  refine List.map_congr_left fun r _ => ?_
  simp only [Function.comp_apply]
  split <;> rfl

lemma ids_add (c : Collected) (role : Role) (via : Provenance) (depth : Nat) :
    (c.add role via depth).ids = c.ids ++ [role.id] := by
  simp [ids, add]

lemma find?_eq_none {c : Collected} {id : String} : c.find? id = none ↔ id ∉ c.ids := by
  simp [find?, ids]

def Uncut (maxDepth : Nat) (c : Collected) : Prop :=
  c.truncated = false → ∀ r ∈ c.roles, r.role.parent.isSome = true → r.depth < maxDepth

end Collected

namespace ChainWalk

variable {s : Store} {maxDepth : Nat} {organization : Option String} {w w' : ChainWalk}

lemma ids_of_found {id : String} {via : Provenance} {found : EffectiveRole}
    (hc : w.current = some (id, via)) (hf : w.collected.find? id = some found)
    (h : step s maxDepth organization w = some w') : w'.collected.ids = w.collected.ids := by
  simp only [step, hc, hf] at h
  split at h
  · obtain rfl := Option.some.inj h
    rfl
  · split at h
    all_goals
      obtain rfl := Option.some.inj h
      exact Collected.ids_meet _ _ _ _

lemma nodup_of_step (h : step s maxDepth organization w = some w') (hn : w.collected.ids.Nodup) :
    w'.collected.ids.Nodup := by
  cases step_cases h with
  | cut => exact hn
  | join => exact (Collected.ids_meet _ _ _ _).symm ▸ hn
  | shorten => exact (Collected.ids_meet _ _ _ _).symm ▸ hn
  | @collect id via role hc _ hu =>
    cases hf : w.collected.find? id with
    | some found => exact (ids_of_found hc hf h).symm ▸ hn
    | none =>
      have hnew : role.id ∉ w.collected.ids := by
        rw [Store.role?_id hu.1]
        exact Collected.find?_eq_none.mp hf
      refine (Collected.ids_add _ _ _ _).symm ▸ List.nodup_append.mpr ⟨hn, by simp, ?_⟩
      rintro a ha b hb rfl
      exact hnew (List.mem_singleton.mp hb ▸ ha)
  | pass => exact hn

lemma depth_le_of_step (h : step s maxDepth organization w = some w')
    (ht : w'.collected.truncated = false) : w.depth ≤ maxDepth := by
  by_contra hd
  rw [step] at h
  cases hc : w.current with
  | none => simp [hc] at h
  | some visit =>
    simp only [hc] at h
    rw [if_pos (by simp [Nat.lt_of_not_le hd])] at h
    obtain rfl := Option.some.inj h
    exact Bool.noConfusion ht

lemma truncated_of_step (h : step s maxDepth organization w = some w')
    (ht : w'.collected.truncated = false) : w.collected.truncated = false := by
  cases step_cases h with
  | cut => exact Bool.noConfusion ht
  | join => exact ht
  | shorten => exact ht
  | collect => exact ht
  | pass => exact ht

def Short (maxDepth : Nat) (w : ChainWalk) : Prop :=
  w.collected.truncated = false → ∀ r ∈ w.collected.roles, r.role.parent.isSome = true →
    r.depth < maxDepth ∨ r.depth + 1 = w.depth ∧ w.current.isSome = true

lemma Short.next (hw : Short maxDepth w) (h : step s maxDepth organization w = some w') :
    Short maxDepth w' := by
  intro ht r hr hp
  have hd := depth_le_of_step h ht
  have hold : ∀ r ∈ w.collected.roles, r.role.parent.isSome = true → r.depth < maxDepth := by
    intro r hr hp
    rcases hw (truncated_of_step h ht) r hr hp with hlt | ⟨heq, -⟩
    · exact hlt
    · omega
  have hmeet : ∀ {id via}, r ∈ (w.collected.meet id via w.depth).roles →
      r.depth < maxDepth := by
    intro id via hr
    obtain ⟨old, ho, hrole, hdepth⟩ := Collected.mem_meet hr
    have := hold old ho (hrole ▸ hp)
    omega
  cases step_cases h with
  | cut => exact Or.inl (hold r hr hp)
  | join => exact Or.inl (hmeet hr)
  | shorten => exact Or.inl (hmeet hr)
  | collect =>
    rcases Collected.mem_add.mp hr with hr | rfl
    · exact Or.inl (hold r hr hp)
    · exact Or.inr ⟨rfl, by simpa [climb] using hp⟩
  | pass => exact Or.inl (hold r hr hp)

end ChainWalk

namespace Collected

variable {s : Store} {maxDepth : Nat} {organization : Option String} {c : Collected}

lemma nodup_withChain (h : c.ids.Nodup) (a : String) (via : Provenance) :
    (c.withChain s maxDepth organization a via).ids.Nodup :=
  Walk.run_preserves (P := fun w : ChainWalk => w.collected.ids.Nodup) ChainWalk.nodup_of_step _ h

lemma uncut_withChain (h : c.Uncut maxDepth) (a : String) (via : Provenance) :
    (c.withChain s maxDepth organization a via).Uncut maxDepth := by
  intro ht r hr hp
  have hshort : ChainWalk.Short maxDepth ⟨some (a, via), 0, [], c⟩ := fun ht r hr hp =>
    Or.inl (h ht r hr hp)
  rcases Walk.run_preserves (P := ChainWalk.Short maxDepth) (fun hs h => h.next hs) _ hshort
    ht r hr hp with hlt | ⟨-, hcur⟩
  · exact hlt
  · obtain ⟨visit, hv⟩ := Option.isSome_iff_exists.mp hcur
    exact absurd ((ChainWalk.run_current c a via).symm.trans hv) (by simp)

structure Tidy (maxDepth : Nat) (c : Collected) : Prop where
  nodup : c.ids.Nodup
  uncut : c.Uncut maxDepth

lemma tidy_empty : empty.Tidy maxDepth :=
  ⟨List.nodup_nil, by simp [Uncut, empty]⟩

lemma Tidy.boundBy (h : c.Tidy maxDepth) (bound : Option Instant) :
    (c.boundBy bound).Tidy maxDepth :=
  ⟨h.nodup, h.uncut⟩

lemma Tidy.withChain (h : c.Tidy maxDepth) (a : String) (via : Provenance) :
    (c.withChain s maxDepth organization a via).Tidy maxDepth :=
  ⟨nodup_withChain h.nodup a via, uncut_withChain h.uncut a via⟩

end Collected

namespace Store

section Listings

variable (s : Store) (maxDepth : Nat) (organization : Option String)

/-- The roles within the limit above some starts, each listed once, as it is stored and under the
length of a shortest path to it. -/
structure ListsAbove (start : String → Prop) (roles : List EffectiveRole) : Prop where
  once : (roles.map (·.role.id)).Nodup
  stored : ∀ r ∈ roles, s.Usable organization r.role.id r.role
  listed : ∀ id, id ∈ roles.map (·.role.id) ↔
    ∃ a, start a ∧ ∃ n ≤ maxDepth, s.RolePath organization n a id
  nearest : ∀ r ∈ roles,
    IsLeast {n | ∃ a, start a ∧ s.RolePath organization n a r.role.id} r.depth

def ParentsListed (roles : List EffectiveRole) : Prop :=
  ∀ r ∈ roles, ∀ parent above, r.role.parent = some parent →
    s.Usable organization parent above → parent ∈ roles.map (·.role.id)

end Listings

variable {s : Store} {maxDepth : Nat} {organization : Option String} {start : String → Prop}
  {c : Collected} {principal : String} {ctx : Context}

lemma listsAbove_of_spans (h : c.Spans s maxDepth organization start)
    (hn : c.ids.Nodup) : s.ListsAbove maxDepth organization start c.roles where
  once := hn
  stored r hr := (h.grounded r hr).2.1
  listed _ := h.mem_iff
  nearest r hr := by
    obtain ⟨hmax, -, hpath⟩ := h.grounded r hr
    refine ⟨hpath, ?_⟩
    rintro n ⟨a, ha, hp⟩
    rcases Nat.lt_or_ge maxDepth n with hlt | hle
    · omega
    · obtain ⟨r', hr', hid, hd⟩ := (h.has_iff hle).mpr ⟨a, ha, n, Nat.le_refl n, hp⟩
      obtain rfl : r' = r := List.inj_on_of_nodup_map hn hr' hr hid
      exact hd

lemma parentsListed_of_spans (h : c.Spans s maxDepth organization start)
    (hu : c.Uncut maxDepth) (ht : c.truncated = false) :
    s.ParentsListed organization c.roles := by
  intro r hr parent above hp husable
  obtain ⟨r', hr', hid, -⟩ :=
    h.closed r hr (hu ht r hr (by simp [hp])) parent above hp husable
  exact List.mem_map.mpr ⟨r', hr', hid⟩

lemma tidy_collectUserRole (groups : List String) (h : c.Tidy maxDepth) (u : UserRole) :
    (s.collectUserRole maxDepth groups ctx c u).Tidy maxDepth := by
  simp only [collectUserRole]
  split
  · split
    · exact (h.boundBy _).withChain _ _
    · split
      · split
        · exact ((h.boundBy _).boundBy _).withChain _ _
        · exact (h.boundBy _).boundBy _
      · exact h.boundBy _
  · exact h.boundBy _

lemma tidy_collectGroup (h : c.Tidy maxDepth) (group : String) :
    (s.collectGroup maxDepth ctx c group).Tidy maxDepth := by
  refine List.foldlRecOn _ _ h fun c hc g _ => ?_
  simp only [collectGroupRole]
  split
  · exact (hc.boundBy _).withChain _ _
  · exact hc.boundBy _

lemma tidy_collectDefaults (h : c.Tidy maxDepth) :
    (s.collectDefaults maxDepth ctx c).Tidy maxDepth := by
  rw [collectDefaults]
  split
  · exact h
  · exact List.foldlRecOn _ _ h fun c hc r _ => hc.withChain _ _

lemma tidy_collected (s : Store) (maxDepth : Nat) (principal : String) (ctx : Context) :
    (s.collected maxDepth principal ctx).Tidy maxDepth := by
  refine tidy_collectDefaults (List.foldlRecOn _ _ (Collected.Tidy.boundBy ?_ _)
    fun c hc g _ => tidy_collectGroup hc g)
  exact List.foldlRecOn _ _ (Collected.tidy_empty.boundBy _)
    fun c hc u _ => tidy_collectUserRole _ hc u

lemma tidy_boundRoles (b : Binding) : (s.boundRoles maxDepth ctx b).Tidy maxDepth := by
  rw [boundRoles]
  split
  · exact Collected.tidy_empty.withChain _ _
  · exact Collected.tidy_empty

lemma spans_above_bound (s : Store) (maxDepth : Nat) (ctx : Context) (b : Binding) :
    (s.boundRoles maxDepth ctx b).Spans s maxDepth ctx.organization (b.role? = some ·) := by
  cases hb : b.role? with
  | none => simpa [boundRoles, hb] using Collected.spans_empty
  | some role => exact (spans_boundRoles hb).congr fun a => by simp [eq_comm]

lemma boundRoles_ne_nil {b : Binding} {role : String} (hb : b.role? = some role) :
    (s.boundRoles maxDepth ctx b).roles ≠ [] ↔ ∃ r, s.Usable ctx.organization role r := by
  have h : (s.boundRoles maxDepth ctx b).Spans s maxDepth ctx.organization (· = role) :=
    spans_boundRoles hb
  constructor
  · intro hne
    obtain ⟨r, hr⟩ := List.exists_mem_of_ne_nil _ hne
    obtain ⟨-, -, a, rfl, hp⟩ := h.grounded r hr
    exact hp.usable_start
  · rintro ⟨r, hu⟩ hnil
    obtain ⟨r', hr', -⟩ := h.begun role r rfl hu
    simp [hnil] at hr'

lemma map_binding_conditional :
    (s.effectiveRoles maxDepth principal ctx).conditional.map (·.binding) =
      (s.bindingsFor principal (s.groupsOf maxDepth principal ctx) ctx).filter fun b =>
        !(b.role?.isSome && (s.boundRoles maxDepth ctx b).roles.isEmpty) := by
  rw [effectiveRoles_eq]
  simp only [conditionalGrants, List.map_filterMap, ← List.filterMap_eq_filter]
  refine List.filterMap_congr fun b _ => ?_
  split <;> rename_i h <;> simp [Option.guard, h]

lemma conditional_increasing :
    (s.effectiveRoles maxDepth principal ctx).conditional.Pairwise
      fun g g' => g.binding.id < g'.binding.id := by
  have h : ((s.effectiveRoles maxDepth principal ctx).conditional.map (·.binding)).Pairwise
      fun b b' => b.id < b'.id := by
    rw [map_binding_conditional]
    exact (s.bindings.increasing.filter _).filter _
  rwa [List.pairwise_map] at h

lemma mem_binding_conditional {b : Binding} :
    b ∈ (s.effectiveRoles maxDepth principal ctx).conditional.map (·.binding) ↔
      b ∈ s.bindingsFor principal (s.groupsOf maxDepth principal ctx) ctx ∧
        ∀ role, b.role? = some role → ∃ r, s.Usable ctx.organization role r := by
  rw [map_binding_conditional, List.mem_filter]
  refine and_congr_right fun _ => ?_
  cases hb : b.role? with
  | none => simp
  | some role =>
    simpa using boundRoles_ne_nil hb

/-- Roles are what stands within the depth limit above the seeds; grants are the active bindings of
the principal and its groups, by id, with what stands above the role that each of them binds. -/
theorem effectiveRoles_closure (s : Store) (maxDepth : Nat) (principal : String) (ctx : Context) :
    let groups := s.groupsOf maxDepth principal ctx
    let e := s.effectiveRoles maxDepth principal ctx
    s.ListsAbove maxDepth ctx.organization (s.Seed principal ctx (· ∈ groups)) e.roles ∧
    e.conditional.Pairwise (fun g g' => g.binding.id < g'.binding.id) ∧
    (∀ b, b ∈ e.conditional.map (·.binding) ↔
      b ∈ s.bindings.rows ∧ b.isActive = true ∧
      (∀ organization, ctx.organization = some organization → b.organization = organization) ∧
      (b.subjectType ≠ .group ∧ b.subject = principal ∨
        b.subjectType = .group ∧ b.subject ∈ groups) ∧
      ∀ role, b.role? = some role → ∃ r, s.Usable ctx.organization role r) ∧
    (∀ g ∈ e.conditional,
      s.ListsAbove maxDepth ctx.organization (g.binding.role? = some ·) g.roles) ∧
    (e.truncated = false → s.ParentsListed ctx.organization e.roles ∧
      ∀ g ∈ e.conditional, s.ParentsListed ctx.organization g.roles) := by
  intro groups e
  have hspans := spans_collected s maxDepth principal ctx
  have htidy := tidy_collected s maxDepth principal ctx
  refine ⟨listsAbove_of_spans hspans htidy.nodup, conditional_increasing, fun b => ?_,
    fun g hg => ?_, fun ht => ?_⟩
  · rw [mem_binding_conditional, mem_bindingsFor]
    simp only [and_assoc]
    rfl
  · obtain ⟨b, -, rfl, -⟩ := mem_conditional.mp hg
    exact listsAbove_of_spans (spans_above_bound s maxDepth ctx b) (tidy_boundRoles b).nodup
  · simp only [e, effectiveRoles_eq, Bool.or_eq_false_iff, List.any_eq_false] at ht
    refine ⟨parentsListed_of_spans hspans htidy.uncut ht.1.1, fun g hg => ?_⟩
    obtain ⟨⟨g', truncated⟩, hmem, rfl⟩ := List.mem_map.mp hg
    obtain ⟨b, -, hb⟩ := List.mem_filterMap.mp hmem
    simp only at hb
    split at hb
    · simp at hb
    · obtain ⟨rfl, rfl⟩ := Prod.mk.inj (Option.some.inj hb)
      exact parentsListed_of_spans (spans_above_bound s maxDepth ctx b) (tidy_boundRoles b).uncut
        (by simpa using ht.2 _ hmem)

end Store

end AccessControl
