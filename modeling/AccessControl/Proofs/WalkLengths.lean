import AccessControl.Proofs.CyclePredictions
import AccessControl.Proofs.Subtrees

/-! Every walk ends, however role parents and group inheritance go round. Over groups it does since a
group adds to the queue only when it is seen for the first time, up from a role since the depth is
limited, and in search of a cycle since the unseen roles run out. -/

namespace AccessControl

namespace GroupWalk

inductive Takes (s : Store) (maxDepth : Nat) (now : Instant) :
    List String → Nat → GroupWalk → GroupWalk → Prop
  | done (w : GroupWalk) : Takes s maxDepth now [] 0 w w
  | root {root : String} {roots : List String} {m n : Nat} {w w' t : GroupWalk} :
      Walk.Takes (step s maxDepth now) m { w with queue := [⟨root, 0, none⟩] } w' →
      step s maxDepth now w' = none → Takes s maxDepth now roots n w' t →
      Takes s maxDepth now (root :: roots) (m + n) w t

variable (s : Store) (maxDepth : Nat) (now : Instant)

def unused (w : GroupWalk) : Nat :=
  s.inheritance.countP fun e => !w.seen.contains e.child

lemma exists_takes_fromRoot (w : GroupWalk) (root : String) :
    ∃ k, k + unused s (fromRoot s maxDepth now w root) ≤ 1 + unused s w ∧
      Walk.Takes (step s maxDepth now) k { w with queue := [⟨root, 0, none⟩] }
        (fromRoot s maxDepth now w root) ∧
      step s maxDepth now (fromRoot s maxDepth now w root) = none := by
  have hstart : remaining s { w with queue := [⟨root, 0, none⟩] } = 1 + unused s w := rfl
  have hroom : 1 + unused s w ≤ s.inheritance.length + 1 := by
    rw [Nat.add_comm]
    exact Nat.succ_le_succ List.countP_le_length
  obtain ⟨k, hk, htakes, hend⟩ := Walk.exists_takes_run (remaining s) remaining_lt
    (hstart ▸ hroom)
  refine ⟨k, ?_, htakes, hend⟩
  exact Nat.le_trans (Nat.add_le_add_left (Nat.le_add_left _ _) k) (hstart ▸ hk)

lemma exists_takes_foldl (roots : List String) (w : GroupWalk) :
    ∃ k, k + unused s (roots.foldl (fromRoot s maxDepth now) w) ≤ roots.length + unused s w ∧
      Takes s maxDepth now roots k w (roots.foldl (fromRoot s maxDepth now) w) := by
  induction roots generalizing w with
  | nil => exact ⟨0, Nat.le_refl _, .done w⟩
  | cons root roots ih =>
    obtain ⟨m, hm, hroot, hend⟩ := exists_takes_fromRoot s maxDepth now w root
    obtain ⟨n, hn, hroots⟩ := ih (fromRoot s maxDepth now w root)
    refine ⟨m + n, ?_, .root hroot hend hroots⟩
    rw [List.foldl_cons, List.length_cons]
    omega

end GroupWalk

namespace Store

variable {s : Store} {maxDepth : Nat}

def rising (maxDepth : Nat) (w : AncestorWalk) : Nat :=
  match w.next with
  | none => 0
  | some _ => maxDepth - w.found.length + 1

lemma rising_le (w : AncestorWalk) : rising maxDepth w ≤ maxDepth + 1 := by
  rw [rising]
  split
  · exact Nat.zero_le _
  · exact Nat.succ_le_succ (Nat.sub_le _ _)

lemma rising_lt {w w' : AncestorWalk} (h : s.ancestorStep maxDepth w = some w') :
    rising maxDepth w' < rising maxDepth w := by
  rw [ancestorStep] at h
  cases hn : w.next with
  | none => simp [hn] at h
  | some parent =>
    have hleft : rising maxDepth w = maxDepth - w.found.length + 1 := by simp [rising, hn]
    rw [hleft]
    simp only [hn] at h
    split at h
    · obtain rfl := Option.some.inj h
      exact Nat.succ_pos _
    · rename_i hroom
      have hroom : w.found.length < maxDepth := by
        simp only [Bool.or_eq_true, decide_eq_true_eq, not_or, Nat.not_le] at hroom
        exact hroom.1
      split at h
      · obtain rfl := Option.some.inj h
        exact Nat.succ_pos _
      · rename_i role _
        obtain rfl := Option.some.inj h
        cases role.parent with
        | none => exact Nat.succ_pos _
        | some p =>
          simp only [rising, List.length_append, List.length_singleton]
          omega

/-- For every store and depth limit. The walks up from any roots together take no more steps than
there are roots and inheritance rows, and the walk down from a group no more than one and the number
of inheritance rows. The walk up that collects a role and its ancestors takes at most two steps more
than the depth limit, whatever has been collected before, and the one over the ancestors alone at
most one more. The search for a cycle has no depth limit and takes at most two steps more than there
are stored roles. Every one of these walks ends by itself, and its result is read where it ended. -/
theorem walks_end (s : Store) (maxDepth : Nat) :
    (∀ (now : Instant) (roots : List String), ∃ k ≤ roots.length + s.inheritance.length,
      GroupWalk.Takes s maxDepth now roots k .empty (GroupWalk.inherited s maxDepth now roots)) ∧
    (∀ group, ∃ w,
      Walk.Ends (SubtreeWalk.step s maxDepth) (1 + s.inheritance.length) ⟨[(group, 0)], []⟩ w ∧
        w.found = s.groupSubtree maxDepth group) ∧
    (∀ organization (c : Collected) role via, ∃ w,
      Walk.Ends (ChainWalk.step s maxDepth organization) (maxDepth + 2)
        ⟨some (role, via), 0, [], c⟩ w ∧
        w.collected = c.withChain s maxDepth organization role via) ∧
    (∀ role, ∃ w,
      Walk.Ends (s.ancestorStep maxDepth) (maxDepth + 1)
        ⟨(s.role? role).bind (·.parent), [role], []⟩ w ∧
        w.found = s.ancestors maxDepth role) ∧
    (∀ child parent, ∃ w,
      Walk.Ends (s.cycleStep child) (s.roles.size + 2) ⟨some parent, [], false⟩ w ∧
        w.met = s.wouldCreateCycle child parent) := by
  refine ⟨fun now roots => ?_, fun group => ?_, fun organization c role via => ?_, fun role => ?_,
    fun child parent => ?_⟩
  · obtain ⟨k, hk, htakes⟩ := GroupWalk.exists_takes_foldl s maxDepth now roots .empty
    have hunused : GroupWalk.unused s .empty ≤ s.inheritance.length := List.countP_le_length
    exact ⟨k, by omega, htakes⟩
  · refine ⟨_, ?_, rfl⟩
    rw [Nat.add_comm 1]
    refine Walk.ends_run (SubtreeWalk.remaining s) SubtreeWalk.remaining_lt ?_
    simp [SubtreeWalk.remaining, Nat.add_comm]
  · exact ⟨_, Walk.ends_run (ChainWalk.remaining maxDepth) ChainWalk.remaining_lt
      (by simp [ChainWalk.remaining]), rfl⟩
  · exact ⟨_, Walk.ends_run (rising maxDepth) rising_lt (rising_le _), rfl⟩
  · exact ⟨_, Walk.ends_run s.unvisited unvisited_lt (by simp [unvisited, Table.size]), rfl⟩

end Store

end AccessControl
