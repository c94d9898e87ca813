import AccessControl.Proofs.Agreement
import AccessControl.Proofs.Subtrees

/-! Resolution consults no group but those whose subtree holds the principal as a member or the group
that is acted for. So whoever drops what was found for a subtree has dropped all that was drawn from the
roles of its top and from the bindings to it. -/

namespace AccessControl

namespace Store

/-- The roles of the group, or the bindings to it, are looked up. -/
inductive Consults (s : Store) (maxDepth : Nat) (principal : String) (ctx : Context) :
    String → Prop
  | held {g} : g ∈ s.groupsOf maxDepth principal ctx → Consults s maxDepth principal ctx g
  | source {u g} : u ∈ s.userRolesOf principal → u.isEffective ctx.now = true →
      u.sourceGroup = some g → g ∈ s.memberGroups principal ctx.now →
      Consults s maxDepth principal ctx g

variable {s : Store} {maxDepth : Nat} {principal : String} {ctx : Context} {g root : String}

lemma enclosed_of_root (hroot : root ∈ s.rootGroups principal ctx)
    (h : root ∈ s.groupSubtree maxDepth g) :
    principal ∈ s.principalsInSubtree maxDepth g ∨
      ∃ c, ctx.group = some c ∧ c ∈ s.groupSubtree maxDepth g := by
  rcases mem_rootGroups.mp hroot with ⟨m, hm, hp, rfl, -⟩ | hg
  · exact Or.inl (mem_principalsInSubtree hm h hp)
  · exact Or.inr ⟨root, hg, h⟩

lemma Consults.enclosed (h : s.Consults maxDepth principal ctx g) :
    principal ∈ s.principalsInSubtree maxDepth g ∨
      ∃ c, ctx.group = some c ∧ c ∈ s.groupSubtree maxDepth g := by
  cases h with
  | held hg =>
    obtain ⟨root, hroot, hsub⟩ := root_mem_groupSubtree hg
    exact enclosed_of_root hroot hsub
  | source _ _ _ hm =>
    have hroot : g ∈ s.rootGroups principal ctx :=
      mem_rootGroups.mpr (Or.inl (mem_memberGroups.mp hm))
    exact enclosed_of_root hroot (s.self_mem_groupSubtree maxDepth g)

lemma mem_bindings_congr {s' : Store} {b : Binding} {held : String → Prop}
    (h : ∀ type id, (type = .group → held id) →
      s'.bindingsOfSubject type id = s.bindingsOfSubject type id)
    (hb : b.subjectType = .group → held b.subject) :
    b ∈ s'.bindings.rows ↔ b ∈ s.bindings.rows := by
  have hmem : ∀ s : Store, b ∈ s.bindingsOfSubject b.subjectType b.subject ↔
      b ∈ s.bindings.rows := fun s => by simp [bindingsOfSubject]
  rw [← hmem s, ← hmem s', h b.subjectType b.subject hb]

lemma bindingsFor_congr {s' : Store} {groups : List String}
    (h : ∀ type id, (type = .group → id ∈ groups) →
      s'.bindingsOfSubject type id = s.bindingsOfSubject type id) :
    s'.bindingsFor principal groups ctx = s.bindingsFor principal groups ctx := by
  refine Table.eq_of_increasing (s'.bindings.increasing.filter _) (s.bindings.increasing.filter _)
    fun b => ?_
  show b ∈ s'.bindingsFor principal groups ctx ↔ b ∈ s.bindingsFor principal groups ctx
  rw [mem_bindingsFor, mem_bindingsFor]
  refine and_congr_left fun ⟨_, _, hbinds⟩ => mem_bindings_congr h fun hgroup => ?_
  rcases hbinds with ⟨hne, -⟩ | ⟨-, hheld⟩
  · exact absurd hgroup hne
  · exact hheld

lemma agree_of_consulted {groupRoles : List GroupRole} {bindings : Table Binding}
    (hroles : ∀ g, s.Consults maxDepth principal ctx g →
      { s with groupRoles := groupRoles }.groupRolesOf g = s.groupRolesOf g)
    (hbindings : ∀ type id, (type = .group → id ∈ s.groupsOf maxDepth principal ctx) →
      { s with bindings := bindings }.bindingsOfSubject type id = s.bindingsOfSubject type id) :
    s.Agree { s with groupRoles := groupRoles, bindings := bindings } maxDepth principal ctx
      ctx where
  roles := rfl
  organization := rfl
  group := rfl
  userRoles := rfl
  assigned _ _ := .refl _ _ _
  memberships := rfl
  joined _ _ := .refl _ _ _
  sourced u hu he g hg hm := by
    have hsame : { s with groupRoles := groupRoles, bindings := bindings }.groupRolesOf g =
      s.groupRolesOf g := hroles g (.source hu he hg hm)
    simp only [groupGrants, hsame]
  walk := rfl
  groupRoles g hg := hroles g (.held hg)
  given _ _ _ _ := .refl _ _ _
  bindings := bindingsFor_congr hbindings

/-- The subtree of a group holds every root from which the group is found, so it holds the principal or
the group acted for whenever resolution consults the group; and what resolution gives does not change
with the roles of other groups or the bindings to them. -/
theorem consulted_enclosed (s : Store) (maxDepth : Nat) :
    (∀ now root g, g ∈ (GroupWalk.inherited s maxDepth now [root]).groups →
      root ∈ s.groupSubtree maxDepth g) ∧
    ∀ principal ctx,
      (∀ g, s.Consults maxDepth principal ctx g → principal ∈ s.principalsInSubtree maxDepth g ∨
        ∃ c, ctx.group = some c ∧ c ∈ s.groupSubtree maxDepth g) ∧
      ∀ groupRoles bindings,
        (∀ g, s.Consults maxDepth principal ctx g →
          { s with groupRoles := groupRoles }.groupRolesOf g = s.groupRolesOf g) →
        (∀ type id, (type = .group → id ∈ s.groupsOf maxDepth principal ctx) →
          { s with bindings := bindings }.bindingsOfSubject type id =
            s.bindingsOfSubject type id) →
        { s with groupRoles := groupRoles, bindings := bindings }.effectiveRoles maxDepth principal
            ctx = s.effectiveRoles maxDepth principal ctx := by
  refine ⟨fun now root g hg => ?_, fun principal ctx => ⟨fun g hg => hg.enclosed, ?_⟩⟩
  · obtain ⟨root', hroot, hsub⟩ := root_mem_groupSubtree hg
    exact List.mem_singleton.mp hroot ▸ hsub
  · exact fun groupRoles bindings hroles hbindings =>
      (agree_of_consulted hroles hbindings).effectiveRoles

def ring : Store :=
  { Store.empty with
    roles := .ofList [.global "reader" "Reader"]
    groups := .ofList [.root "a" "a" "acme", .root "b" "b" "acme", .root "c" "c" "acme",
      .root "d" "d" "acme"]
    memberships := [.ofUser "m" "a" "ada"]
    inheritance := [.between "i" "b" "a", .between "j" "c" "b", .between "k" "a" "c"]
    groupRoles := [.ofGroup "r" (.root "c" "c" "acme") "reader",
      .ofGroup "s" (.root "d" "d" "acme") "reader"] }

theorem consulted_enclosed_ring :
    ring.Consults 2 "ada" ⟨none, none, ⟨0, 0⟩⟩ "c" ∧ "a" ∈ ring.groupSubtree 2 "c" ∧
    "ada" ∈ ring.principalsInSubtree 2 "c" ∧
    { ring with groupRoles := [.ofGroup "r" (.root "c" "c" "acme") "reader"] }.effectiveRoles 2 "ada"
      ⟨none, none, ⟨0, 0⟩⟩ = ring.effectiveRoles 2 "ada" ⟨none, none, ⟨0, 0⟩⟩ := by
  obtain ⟨hwalk, hresolve⟩ := consulted_enclosed ring 2
  obtain ⟨henclosed, hsame⟩ := hresolve "ada" ⟨none, none, ⟨0, 0⟩⟩
  have hgroups : ring.groupsOf 2 "ada" ⟨none, none, ⟨0, 0⟩⟩ = ["a", "b", "c"] := by decide +kernel
  have hc : ring.Consults 2 "ada" ⟨none, none, ⟨0, 0⟩⟩ "c" := .held (by rw [hgroups]; decide)
  refine ⟨hc, hwalk ⟨0, 0⟩ "a" "c" (by decide +kernel), ?_, ?_⟩
  · rcases henclosed "c" hc with hada | ⟨c, hnone, -⟩
    · exact hada
    · cases hnone
  · refine hsame [.ofGroup "r" (.root "c" "c" "acme") "reader"] ring.bindings (fun g hg => ?_)
      fun _ _ _ => rfl
    have hne : "d" ≠ g := by
      rintro rfl
      cases hg with
      | held hd =>
        rw [hgroups] at hd
        revert hd
        decide
      | source hu => cases hu
    simp [groupRolesOf, ring, GroupRole.ofGroup, Group.root, List.filter_cons, hne]

end Store

end AccessControl
