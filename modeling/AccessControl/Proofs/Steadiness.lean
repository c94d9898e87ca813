import AccessControl.Proofs.Agreement

/-! Effective roles stay what they are for as long as they say. -/

namespace AccessControl

namespace Store

structure Stands (s : Store) (maxDepth : Nat) (principal : String) (ctx : Context) (t : Instant) :
    Prop where
  joined : ∀ m ∈ s.membershipsOf principal,
    Before t (GroupWalk.transition m.isActive m.window ctx.now)
  assigned : ∀ u ∈ s.userRolesOf principal,
    Before t (GroupWalk.transition u.isActive u.window ctx.now)
  sourced : ∀ u ∈ s.userRolesOf principal, u.isEffective ctx.now = true →
    ∀ g, u.sourceGroup = some g → g ∈ s.memberGroups principal ctx.now →
      Before t (s.groupGrants g u.role ctx.now).2
  walk : Before t
    (GroupWalk.inherited s maxDepth ctx.now (s.rootGroups principal ctx)).validUntil
  given : ∀ g ∈ s.groupsOf maxDepth principal ctx, ∀ r ∈ s.groupRolesOf g,
    Before t (GroupWalk.transition r.isActive r.window ctx.now)

variable {s : Store} {maxDepth : Nat} {principal : String} {ctx : Context} {t : Instant}

lemma before_foldl {α : Type} {f : Collected → α → Collected} {P : α → Prop} {rows : List α}
    (hf : ∀ r ∈ rows, ∀ c, Before t (f c r).validUntil ↔ Before t c.validUntil ∧ P r)
    (c : Collected) :
    Before t (rows.foldl f c).validUntil ↔ Before t c.validUntil ∧ ∀ r ∈ rows, P r := by
  induction rows generalizing c with
  | nil => simp
  | cons r rows ih =>
    rw [List.foldl_cons, ih (fun r' hr' => hf r' (List.mem_cons_of_mem _ hr')),
      hf r List.mem_cons_self, List.forall_mem_cons, and_assoc]

@[simp]
lemma before_boundBy (c : Collected) (bound : Option Instant) :
    Before t (c.boundBy bound).validUntil ↔ Before t c.validUntil ∧ Before t bound :=
  Before.earliest

lemma before_collectUserRole {groups : List String} (u : UserRole) (c : Collected) :
    Before t (s.collectUserRole maxDepth groups ctx c u).validUntil ↔ Before t c.validUntil ∧
      Before t (GroupWalk.transition u.isActive u.window ctx.now) ∧
        (u.isEffective ctx.now = true → ∀ g, u.sourceGroup = some g → g ∈ groups →
          Before t (s.groupGrants g u.role ctx.now).2) := by
  rw [collectUserRole]
  simp only
  split
  · rename_i he
    split
    · rename_i hs
      simp [Collected.validUntil_withChain, he, hs]
    · rename_i g hs
      split
      · rename_i hm
        have hm : g ∈ groups := by simpa using hm
        split <;> simp [Collected.validUntil_withChain, he, hs, hm, and_assoc]
      · rename_i hm
        have hm : g ∉ groups := by simpa using hm
        simp [he, hs, hm]
  · rename_i he
    simp [he]

lemma before_collectGroup (g : String) (c : Collected) :
    Before t (s.collectGroup maxDepth ctx c g).validUntil ↔ Before t c.validUntil ∧
      ∀ r ∈ s.groupRolesOf g, Before t (GroupWalk.transition r.isActive r.window ctx.now) := by
  refine before_foldl (fun r _ c => ?_) c
  unfold collectGroupRole
  simp only
  split <;> simp [Collected.validUntil_withChain]

lemma validUntil_collectDefaults (c : Collected) :
    (s.collectDefaults maxDepth ctx c).validUntil = c.validUntil := by
  rw [collectDefaults]
  cases ctx.organization with
  | none => rfl
  | some organization =>
    simp only
    induction s.defaultRoles organization generalizing c with
    | nil => rfl
    | cons r rows ih => rw [List.foldl_cons, ih, Collected.validUntil_withChain]

lemma before_validUntil :
    Before t (s.effectiveRoles maxDepth principal ctx).validUntil ↔
      s.Stands maxDepth principal ctx t := by
  have hmember : Before t (s.membershipBound principal ctx.now) ↔
      ∀ m ∈ s.membershipsOf principal,
        Before t (GroupWalk.transition m.isActive m.window ctx.now) := by
    rw [membershipBound, Before.foldl_earliest]
    simp
  simp only [effectiveRoles_eq, collected, validUntil_collectDefaults]
  rw [before_foldl (fun g _ c => before_collectGroup g c), before_boundBy,
    before_foldl (fun u _ c => before_collectUserRole u c), before_boundBy, hmember]
  constructor
  · rintro ⟨⟨⟨⟨-, hm⟩, hu⟩, hw⟩, hg⟩
    exact ⟨hm, fun u h => (hu u h).1, fun u h => (hu u h).2, hw, hg⟩
  · rintro ⟨hm, hu, hs, hw, hg⟩
    exact ⟨⟨⟨⟨Before.none, hm⟩, fun u h => ⟨hu u h, hs u h⟩⟩, hw⟩, hg⟩

lemma groupGrants_steady {g role : String} {now : Instant} (ht : now ≤ t)
    (hb : Before t (s.groupGrants g role now).2) :
    s.groupGrants g role t = s.groupGrants g role now := by
  simp only [groupGrants, Before.foldl_earliest] at hb
  have hsteady : ∀ r ∈ (s.groupRolesOf g).filter (fun r => r.role == role && r.isActive),
      r.window.contains t = r.window.contains now ∧
        r.window.nextTransition t = r.window.nextTransition now :=
    fun r hr => TimeWindow.steady ht (hb.2 r hr)
  have hbound := List.foldl_ext
    (fun bound r => earliest bound (r.window.nextTransition t))
    (fun bound r => earliest bound (r.window.nextTransition now)) none
    fun bound (r : GroupRole) hr => by rw [(hsteady r hr).2]
  simp only [groupGrants]
  refine Prod.ext ?_ hbound
  apply Bool.eq_iff_iff.mpr
  simp only [List.any_eq_true]
  refine exists_congr fun r => and_congr_right fun hr => ?_
  rw [GroupRole.isEffective, GroupRole.isEffective, (hsteady r hr).1]

lemma Stands.agree (h : s.Stands maxDepth principal ctx t) (ht : ctx.now ≤ t) :
    s.Agree s maxDepth principal ctx { ctx with now := t } where
  roles := rfl
  organization := rfl
  group := rfl
  userRoles := rfl
  assigned u hu := .of_before ht (h.assigned u hu)
  memberships := rfl
  joined m hm := .of_before ht (h.joined m hm)
  sourced u hu he g hg hm := groupGrants_steady ht (h.sourced u hu he g hg hm)
  walk := GroupWalk.inherited_steady ht h.walk
  groupRoles _ _ := rfl
  given g hg r hr := .of_before ht (h.given g hg r hr)
  bindings := rfl

lemma effectiveRoles_steady (ht : ctx.now ≤ t)
    (hb : Before t (s.effectiveRoles maxDepth principal ctx).validUntil) :
    s.effectiveRoles maxDepth principal { ctx with now := t } =
      s.effectiveRoles maxDepth principal ctx :=
  ((before_validUntil.mp hb).agree ht).effectiveRoles

end Store

end AccessControl
