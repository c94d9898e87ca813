import AccessControl.Proofs.RoleClosures

/-! The ancestors of a role are what a principal comes to hold through that role alone, while every
role is live. The two walks up go side by side: where one of them stops, at a cycle, at a parent that
is not stored or at the depth limit, so does the other. -/

namespace AccessControl

namespace ChainWalk

structure Abreast (bottom : String) (w : ChainWalk) (a : Store.AncestorWalk) : Prop where
  next : w.current.map (·.1) = a.next
  behind : w.chain = a.seen
  depth : w.depth = a.found.length + 1
  within : ∀ id ∈ w.collected.ids, id ∈ w.chain
  ids : w.collected.ids = bottom :: a.found.map (·.id)
  depths : w.collected.roles.map (·.depth) = List.range (a.found.length + 1)

variable {s : Store} {maxDepth : Nat} {bottom : String} {w w' : ChainWalk} {a : Store.AncestorWalk}

lemma Abreast.start {id : String} {role : Role} (hr : s.role? id = some role) {c : Collected}
    (hc : c.roles = []) (via : Provenance) :
    Abreast id (ChainWalk.climb ⟨some (id, via), 0, [], c⟩ id role.parent (c.add role via 0))
      ⟨role.parent, [id], []⟩ where
  next := by simp [ChainWalk.climb, Function.comp_def]
  behind := rfl
  depth := rfl
  within := by simp [ChainWalk.climb, Collected.ids, Collected.add, hc, Store.role?_id hr]
  ids := by simp [ChainWalk.climb, Collected.ids, Collected.add, hc, Store.role?_id hr]
  depths := by simp [ChainWalk.climb, Collected.add, hc]

lemma Abreast.stop (h : Abreast bottom w a) {c : Collected} (hc : c.roles = w.collected.roles) :
    Abreast bottom (w.stop c) { a with next := none } where
  next := rfl
  behind := h.behind
  depth := h.depth
  within := by simpa only [ChainWalk.stop, Collected.ids, hc] using h.within
  ids := by simpa only [ChainWalk.stop, Collected.ids, hc] using h.ids
  depths := by simpa only [ChainWalk.stop, hc] using h.depths

lemma Abreast.climb (h : Abreast bottom w a) {id : String} (via : Provenance) {role : Role}
    (hr : s.role? id = some role) :
    Abreast bottom (w.climb id role.parent (w.collected.add role via w.depth))
      ⟨role.parent, id :: a.seen, a.found ++ [role]⟩ where
  next := by simp [ChainWalk.climb, Function.comp_def]
  behind := congrArg (id :: ·) h.behind
  depth := by simp [ChainWalk.climb, h.depth]
  within := by
    intro x hx
    simp only [ChainWalk.climb, Collected.ids_add, List.mem_append, List.mem_singleton,
      Store.role?_id hr] at hx
    rcases hx with hx | rfl
    · exact List.mem_cons_of_mem _ (h.within x hx)
    · exact List.mem_cons_self
  ids := by simp [ChainWalk.climb, Collected.ids_add, h.ids]
  depths := by
    rw [List.length_append, List.length_singleton, List.range_succ, ← h.depths, ← h.depth]
    simp [ChainWalk.climb, Collected.add]

lemma Abreast.step (hlive : ∀ id role, s.role? id = some role → role.isLive = true)
    (h : Abreast bottom w a) (hs : ChainWalk.step s maxDepth none w = some w') :
    ∃ a', s.ancestorStep maxDepth a = some a' ∧ Abreast bottom w' a' := by
  obtain ⟨hnext, hbehind, hdepth, hwithin, -, -⟩ := id h
  cases hc : w.current with
  | none => simp [ChainWalk.step, hc] at hs
  | some visit =>
    obtain ⟨id, via⟩ := visit
    have hn : a.next = some id := by simpa [hc] using hnext.symm
    simp only [ChainWalk.step, hc] at hs
    simp only [Store.ancestorStep, hn]
    by_cases hcut : maxDepth < w.depth ∨ id ∈ w.chain
    · rw [if_pos (by simpa using hcut)] at hs
      obtain rfl := Option.some.inj hs
      have hcut' : maxDepth ≤ a.found.length ∨ id ∈ a.seen :=
        hcut.imp (fun hd => by omega) (hbehind ▸ ·)
      rw [if_pos (by simpa using hcut')]
      exact ⟨_, rfl, h.stop rfl⟩
    · rw [if_neg (by simpa using hcut)] at hs
      have hcut' : ¬ (maxDepth ≤ a.found.length ∨ id ∈ a.seen) := fun hcut' =>
        hcut (hcut'.imp (fun hd => by omega) (hbehind ▸ ·))
      rw [if_neg (by simpa using hcut')]
      have hnew : w.collected.find? id = none :=
        Collected.find?_eq_none.mpr fun hi => hcut (Or.inr (hwithin id hi))
      simp only [hnew] at hs
      cases hr : s.role? id with
      | none =>
        simp only [hr] at hs ⊢
        obtain rfl := Option.some.inj hs
        exact ⟨_, rfl, h.stop rfl⟩
      | some role =>
        simp only [hr, hlive id role hr, Role.visibleTo, Option.all_none, Bool.and_self,
          if_true] at hs ⊢
        obtain rfl := Option.some.inj hs
        exact ⟨_, rfl, h.climb via hr⟩

lemma Abreast.done (h : Abreast bottom w a) (hs : ChainWalk.step s maxDepth none w = none) :
    s.ancestorStep maxDepth a = none := by
  have hn : a.next = none := by rw [← h.next, current_of_step hs, Option.map_none]
  rw [Store.ancestorStep, hn]

lemma Abreast.run (hlive : ∀ id role, s.role? id = some role → role.isLive = true)
    (maxDepth n : Nat) (h : Abreast bottom w a) :
    Abreast bottom (Walk.run (ChainWalk.step s maxDepth none) n w)
      (Walk.run (s.ancestorStep maxDepth) n a) :=
  Walk.run_related (fun h hs => h.done hs) (fun h hs => h.step hlive hs) n h

end ChainWalk

namespace Store

variable {s : Store} {maxDepth : Nat} {principal : String} {now : Instant}

lemma withChain_ancestors (hlive : ∀ id role, s.role? id = some role → role.isLive = true)
    {id : String} {role : Role} (hr : s.role? id = some role) {c : Collected} (hc : c.roles = [])
    (via : Provenance) :
    (c.withChain s maxDepth none id via).ids = id :: (s.ancestors maxDepth id).map (·.id) ∧
      (c.withChain s maxDepth none id via).roles.map (·.depth) =
        List.range ((s.ancestors maxDepth id).length + 1) := by
  have hfirst : ChainWalk.step s maxDepth none ⟨some (id, via), 0, [], c⟩ =
      some (ChainWalk.climb ⟨some (id, via), 0, [], c⟩ id role.parent (c.add role via 0)) := by
    simp [ChainWalk.step, Collected.find?, hc, hr, hlive id role hr, Role.visibleTo]
  have hrun := (ChainWalk.Abreast.start hr hc via).run hlive maxDepth (maxDepth + 1)
  rw [Collected.withChain, Walk.run, hfirst, ancestors, hr]
  exact ⟨hrun.ids, hrun.depths⟩

lemma groupsOf_eq_nil (hm : s.membershipsOf principal = []) :
    s.groupsOf maxDepth principal ⟨none, none, now⟩ = [] := by
  simp [groupsOf, rootGroups, memberGroups, hm, Text.sortedDistinct, GroupWalk.inherited,
    GroupWalk.empty]

/-- A principal in no group who is given one role, and is asked about in no organization, holds
that role and then, nearest first, the role's ancestors, each one link further up. -/
theorem roles_of_single_assignment
    (hlive : ∀ id role, s.role? id = some role → role.isLive = true) {id row : String} {role : Role}
    (hr : s.role? id = some role) (hu : s.userRolesOf principal = [.direct row principal id])
    (hm : s.membershipsOf principal = []) :
    let e := s.effectiveRoles maxDepth principal ⟨none, none, now⟩
    e.ids = id :: (s.ancestors maxDepth id).map (·.id) ∧
      e.roles.map (·.depth) = List.range ((s.ancestors maxDepth id).length + 1) := by
  intro e
  have hheld : (UserRole.direct row principal id).isEffective now = true := rfl
  simp only [e, effectiveRoles_eq, EffectiveRoles.ids, collected, collectDefaults,
    groupsOf_eq_nil hm, hu, List.foldl_cons, List.foldl_nil, collectUserRole, hheld, if_true]
  exact withChain_ancestors hlive hr rfl .direct

def stable : Store :=
  { empty with
    roles := .ofList [{ Role.global "groom" "Groom" with parent := some "rider" },
      { Role.global "rider" "Rider" with parent := some "trainer" },
      { Role.global "trainer" "Trainer" with parent := some "owner" },
      { Role.global "owner" "Owner" with parent := some "trainer" }]
    userRoles := [.direct "u1" "ada" "groom"] }

theorem roles_of_single_assignment_stable :
    (∀ id role, stable.role? id = some role → role.isLive = true) ∧
    (stable.effectiveRoles 8 "ada" ⟨none, none, default⟩).ids =
      ["groom", "rider", "trainer", "owner"] ∧
    (stable.effectiveRoles 2 "ada" ⟨none, none, default⟩).ids = ["groom", "rider", "trainer"] := by
  have hlive : ∀ id role, stable.role? id = some role → role.isLive = true := by
    intro id role hr
    have hall : ∀ role ∈ stable.roles.rows, role.isLive = true := by decide +kernel
    exact hall role (Table.mem_of_get? hr)
  have hr : stable.role? "groom" =
      some { Role.global "groom" "Groom" with parent := some "rider" } := by decide +kernel
  have hu : stable.userRolesOf "ada" = [.direct "u1" "ada" "groom"] := by decide +kernel
  have hm : stable.membershipsOf "ada" = [] := rfl
  refine ⟨hlive, ?_, ?_⟩
  · rw [(roles_of_single_assignment hlive hr hu hm).1]
    decide +kernel
  · rw [(roles_of_single_assignment hlive hr hu hm).1]
    decide +kernel

end Store

end AccessControl
