import AccessControl.Proofs.ConsultedGroups
import AccessControl.Proofs.Restriction
import AccessControl.Proofs.Serving

/-! What a change makes stale reaches everyone whose roles may be drawn from the group or the binding
that it is about. -/

namespace AccessControl

namespace Store

variable {s : Store} {maxDepth : Nat} {principal : String} {ctx : Context} {names : List String}

def staleItems (s : Store) (maxDepth : Nat) (change : Change) : List Stale :=
  (s.stale maxDepth change).known ++ (s.stale maxDepth change).asked.getD []

def Reached (items : List Stale) (names : List String) (principal : String) (ctx : Context) :
    Prop :=
  ∃ item ∈ items, item.Reaches names principal ctx

lemma Reached.mono {items items' : List Stale} (h : Reached items names principal ctx)
    (hsub : ∀ item ∈ items, item ∈ items') : Reached items' names principal ctx := by
  obtain ⟨item, hi, hr⟩ := h
  exact ⟨item, hsub item hi, hr⟩

lemma reached_of_root {group root : String}
    (hroot : root ∈ s.rootGroups principal ctx) (h : root ∈ s.groupSubtree maxDepth group) :
    Reached (s.staleSubtree maxDepth group) names principal ctx := by
  rcases enclosed_of_root hroot h with hp | ⟨c, hc, hsub⟩
  · exact ⟨.principal principal, List.mem_append_right _ (List.mem_map_of_mem hp), rfl⟩
  · exact ⟨.group c, List.mem_append_left _ (List.mem_map_of_mem hsub), hc⟩

lemma reached_of_group {group : String} (h : group ∈ s.groupsOf maxDepth principal ctx) :
    Reached (s.staleSubtree maxDepth group) names principal ctx := by
  obtain ⟨root, hroot, hsub⟩ := root_mem_groupSubtree h
  exact reached_of_root hroot hsub

lemma reached_of_member {group : String} (h : group ∈ s.memberGroups principal ctx.now) :
    Reached (s.staleSubtree maxDepth group) names principal ctx :=
  reached_of_root (mem_rootGroups.mpr (Or.inl (mem_memberGroups.mp h)))
    (s.self_mem_groupSubtree maxDepth group)

lemma reached_of_bindsTo {b : Binding}
    (h : bindsTo principal (s.groupsOf maxDepth principal ctx) b = true) :
    Reached (s.staleSubject maxDepth b.subjectType b.subject) names principal ctx := by
  rw [bindsTo] at h
  unfold staleSubject
  cases ht : b.subjectType with
  | user | service =>
    simp only [ht, beq_iff_eq] at h
    exact ⟨.principal b.subject, List.mem_singleton_self _, h⟩
  | group =>
    simp only [ht, List.contains_iff_mem] at h
    exact reached_of_group h

lemma reached_of_binding {b : Binding}
    (h : bindsTo principal (s.groupsOf maxDepth principal ctx) b = true) :
    Reached (s.staleItems maxDepth (.ofBinding b)) names principal ctx := by
  refine (reached_of_bindsTo h).mono fun item hi => ?_
  unfold staleItems stale Change.ofBinding staleBinding
  unfold staleSubject at hi
  cases b.target <;> cases ht : b.subjectType <;> simp_all [staleSubject]

end Store

end AccessControl
