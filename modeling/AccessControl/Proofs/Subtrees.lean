import AccessControl.Proofs.GroupWalks
import Mathlib.Data.List.Pairwise

/-! The downward walk finds the groups within the depth limit below a group, whatever the edges'
windows, and no others. So a root whose upward walk finds a group lies in the subtree of that group. -/

namespace AccessControl

namespace Store

inductive Below (s : Store) (top : String) : Nat → String → Prop
  | here : Below s top 0 top
  | down {n id e} : Below s top n id → e ∈ s.inheritance → e.parent = id →
      Below s top (n + 1) e.child

variable {s : Store}

lemma Below.above {e : Inheritance} (he : e ∈ s.inheritance) {n : Nat} {id : String}
    (h : s.Below e.child n id) : s.Below e.parent (n + 1) id := by
  induction h with
  | here => exact .down .here he rfl
  | down _ hm hp ih => exact .down ih hm hp

lemma Below.trans {top mid id : String} {n m : Nat} (h : s.Below top n mid)
    (h' : s.Below mid m id) : s.Below top (n + m) id := by
  induction h' with
  | here => exact h
  | down _ hm hp ih => exact .down ih hm hp

lemma Below.mono {s' : Store} (hsub : ∀ e ∈ s.inheritance, e ∈ s'.inheritance) {top id : String}
    {n : Nat} (h : s.Below top n id) : s'.Below top n id := by
  induction h with
  | here => exact .here
  | down _ hm hp ih => exact .down ih (hsub _ hm) hp

lemma GroupPath.root_below {now : Instant} {organization root id : String} {n : Nat}
    (h : s.GroupPath now organization root n id) : s.Below id n root := by
  induction h with
  | here => exact .here
  | up _ hi _ ih =>
    obtain ⟨e, hm, rfl, rfl, -⟩ := hi
    exact ih.above hm

end Store

namespace SubtreeWalk

def Reached (depths : List (String × Nat)) (w : SubtreeWalk) (id : String) (depth : Nat) : Prop :=
  (∃ d ∈ depths, d.1 = id ∧ d.2 ≤ depth) ∨ (id, depth) ∈ w.queue

structure Layered (s : Store) (maxDepth : Nat) (top : String) (depths : List (String × Nat))
    (w : SubtreeWalk) : Prop where
  found : w.found = depths.map (·.1)
  ordered : w.queue.Pairwise fun a b => a.2 ≤ b.2
  narrow : ∀ a ∈ w.queue, ∀ b ∈ w.queue, b.2 ≤ a.2 + 1
  nearer : ∀ d ∈ depths, ∀ a ∈ w.queue, d.2 ≤ a.2
  begun : Reached depths w top 0
  covered : ∀ d ∈ depths, d.2 < maxDepth → ∀ e ∈ s.childEdges d.1,
    Reached depths w e.child (d.2 + 1)

variable {s : Store} {maxDepth : Nat} {top : String}

lemma Layered.again {depths : List (String × Nat)} {w : SubtreeWalk} {g : String} {depth : Nat}
    {queue : List (String × Nat)} (h : Layered s maxDepth top depths w)
    (hq : w.queue = (g, depth) :: queue) (hm : g ∈ w.found) :
    Layered s maxDepth top depths { w with queue := queue } := by
  have hsub : ∀ a ∈ queue, a ∈ w.queue := fun a ha => hq ▸ List.mem_cons_of_mem _ ha
  have hreached : ∀ {id n}, Reached depths w id n →
      Reached depths { w with queue := queue } id n := by
    rintro id n (hr | hr)
    · exact Or.inl hr
    · rw [hq] at hr
      rcases List.mem_cons.mp hr with heq | hr
      · obtain ⟨rfl, rfl⟩ := Prod.mk.inj heq
        rw [h.found] at hm
        obtain ⟨d, hd, rfl⟩ := List.mem_map.mp hm
        exact Or.inl ⟨d, hd, rfl, h.nearer d hd (d.1, n) (hq ▸ List.mem_cons_self)⟩
      · exact Or.inr hr
  exact ⟨h.found, (List.pairwise_cons.mp (hq ▸ h.ordered)).2,
    fun a ha b hb => h.narrow a (hsub a ha) b (hsub b hb),
    fun d hd a ha => h.nearer d hd a (hsub a ha), hreached h.begun,
    fun d hd hlt e he => hreached (h.covered d hd hlt e he)⟩

lemma Layered.visit {depths : List (String × Nat)} {w : SubtreeWalk} {g : String} {depth : Nat}
    {queue children : List (String × Nat)} (h : Layered s maxDepth top depths w)
    (hq : w.queue = (g, depth) :: queue) (hchildren : ∀ c ∈ children, c.2 = depth + 1)
    (hall : depth < maxDepth → ∀ e ∈ s.childEdges g, (e.child, depth + 1) ∈ children) :
    Layered s maxDepth top (depths ++ [(g, depth)]) ⟨queue ++ children, w.found ++ [g]⟩ := by
  have hhead : (g, depth) ∈ w.queue := hq ▸ List.mem_cons_self
  have hord := List.pairwise_cons.mp (hq ▸ h.ordered)
  have hle : ∀ a ∈ queue ++ children, depth ≤ a.2 ∧ a.2 ≤ depth + 1 := by
    intro a ha
    rcases List.mem_append.mp ha with ha | ha
    · exact ⟨hord.1 a ha, h.narrow _ hhead a (hq ▸ List.mem_cons_of_mem _ ha)⟩
    · have := hchildren a ha
      omega
  have hreached : ∀ {id n}, Reached depths w id n →
      Reached (depths ++ [(g, depth)]) ⟨queue ++ children, w.found ++ [g]⟩ id n := by
    rintro id n (⟨d, hd, hr⟩ | hr)
    · exact Or.inl ⟨d, List.mem_append_left _ hd, hr⟩
    · rw [hq] at hr
      rcases List.mem_cons.mp hr with heq | hr
      · obtain ⟨rfl, rfl⟩ := Prod.mk.inj heq
        exact Or.inl ⟨(id, n), List.mem_append_right _ List.mem_cons_self, rfl, Nat.le_refl _⟩
      · exact Or.inr (List.mem_append_left _ hr)
  constructor
  · simp [h.found]
  · refine List.pairwise_append.mpr ⟨hord.2, ?_, ?_⟩
    · exact List.pairwise_of_forall_mem_list fun a ha b hb =>
        Nat.le_of_eq ((hchildren a ha).trans (hchildren b hb).symm)
    · intro a ha b hb
      rw [hchildren b hb]
      exact (hle a (List.mem_append_left _ ha)).2
  · intro a ha b hb
    exact Nat.le_trans (hle b hb).2 (Nat.succ_le_succ (hle a ha).1)
  · intro d hd a ha
    have hfrom := (hle a ha).1
    rcases List.mem_append.mp hd with hd | hd
    · exact Nat.le_trans (h.nearer d hd _ hhead) hfrom
    · obtain rfl := List.mem_singleton.mp hd
      exact hfrom
  · exact hreached h.begun
  · intro d hd hlt e he
    rcases List.mem_append.mp hd with hd | hd
    · exact hreached (h.covered d hd hlt e he)
    · obtain rfl := List.mem_singleton.mp hd
      exact Or.inr (List.mem_append_right _ (hall hlt e he))

lemma Layered.next {w w' : SubtreeWalk} (h : ∃ depths, Layered s maxDepth top depths w)
    (hs : step s maxDepth w = some w') : ∃ depths, Layered s maxDepth top depths w' := by
  obtain ⟨depths, h⟩ := h
  rw [step] at hs
  cases hq : w.queue with
  | nil => simp [hq] at hs
  | cons v queue =>
    obtain ⟨g, depth⟩ := v
    simp only [hq] at hs
    split at hs
    · rename_i hm
      obtain rfl := Option.some.inj hs
      exact ⟨depths, h.again hq (by simpa using hm)⟩
    · obtain rfl := Option.some.inj hs
      refine ⟨_, h.visit hq ?_ ?_⟩
      · intro c hc
        split at hc
        · obtain ⟨e, -, rfl⟩ := List.mem_map.mp hc
          rfl
        · simp at hc
      · intro hlt e he
        rw [if_pos hlt]
        exact List.mem_map.mpr ⟨e, he, rfl⟩

def remaining (s : Store) (w : SubtreeWalk) : Nat :=
  w.queue.length + s.inheritance.countP fun e => !w.found.contains e.parent

lemma remaining_lt {w w' : SubtreeWalk} (h : step s maxDepth w = some w') :
    remaining s w' < remaining s w := by
  rw [step] at h
  cases hq : w.queue with
  | nil => simp [hq] at h
  | cons v queue =>
    obtain ⟨g, depth⟩ := v
    simp only [hq] at h
    split at h
    · obtain rfl := Option.some.inj h
      simp [remaining, hq]
    · rename_i hm
      obtain rfl := Option.some.inj h
      have := Walk.countP_unseen Inheritance.parent s.inheritance
        (show ∀ x, x ∈ w.found ++ [g] ↔ x = g ∨ x ∈ w.found by simp [or_comm]) (by simpa using hm)
      have hle : (if depth < maxDepth then (s.childEdges g).map fun e => (e.child, depth + 1)
          else []).length ≤ s.inheritance.countP fun e => e.parent == g := by
        split
        · simp [Store.childEdges, List.countP_eq_length_filter]
        · simp
      simp only [remaining, hq, List.length_cons, List.length_append]
      omega

lemma queue_of_step {w : SubtreeWalk} (h : step s maxDepth w = none) : w.queue = [] := by
  cases hq : w.queue with
  | nil => rfl
  | cons v queue =>
    simp only [step, hq] at h
    split at h <;> simp at h

lemma Layered.found_of_below {depths : List (String × Nat)} {w : SubtreeWalk}
    (h : Layered s maxDepth top depths w) (hq : w.queue = []) {id : String} {n : Nat}
    (hb : s.Below top n id) (hn : n ≤ maxDepth) : ∃ d ∈ depths, d.1 = id ∧ d.2 ≤ n := by
  have hreached : ∀ {id n}, Reached depths w id n → ∃ d ∈ depths, d.1 = id ∧ d.2 ≤ n := by
    rintro id n (hr | hr)
    · exact hr
    · simp [hq] at hr
  induction hb with
  | here => exact hreached h.begun
  | @down n id e _ he hp ih =>
    obtain ⟨d, hd, rfl, hle⟩ := ih (Nat.le_of_succ_le hn)
    obtain ⟨d', hd', hi, hle'⟩ := hreached (h.covered d hd (Nat.lt_of_le_of_lt hle hn) e
      (List.mem_filter.mpr ⟨he, by simpa using hp⟩))
    exact ⟨d', hd', hi, Nat.le_trans hle' (Nat.succ_le_succ hle)⟩

structure Within (s : Store) (maxDepth : Nat) (top : String) (w : SubtreeWalk) : Prop where
  queue : ∀ v ∈ w.queue, v.2 ≤ maxDepth ∧ s.Below top v.2 v.1
  found : ∀ g ∈ w.found, ∃ n ≤ maxDepth, s.Below top n g

lemma Within.next {w w' : SubtreeWalk} (hs : step s maxDepth w = some w')
    (h : Within s maxDepth top w) : Within s maxDepth top w' := by
  rw [step] at hs
  cases hq : w.queue with
  | nil => simp [hq] at hs
  | cons v queue =>
    obtain ⟨g, depth⟩ := v
    simp only [hq] at hs
    obtain ⟨hle, hbelow⟩ := h.queue (g, depth) (hq ▸ List.mem_cons_self)
    have hrest : ∀ v ∈ queue, v.2 ≤ maxDepth ∧ s.Below top v.2 v.1 := fun v hv =>
      h.queue v (hq ▸ List.mem_cons_of_mem _ hv)
    split at hs
    · obtain rfl := Option.some.inj hs
      exact ⟨hrest, h.found⟩
    · obtain rfl := Option.some.inj hs
      constructor
      · intro v hv
        rcases List.mem_append.mp hv with hv | hv
        · exact hrest v hv
        · split at hv
          · rename_i hlt
            obtain ⟨e, he, rfl⟩ := List.mem_map.mp hv
            obtain ⟨hm, hp⟩ := List.mem_filter.mp he
            exact ⟨hlt, .down hbelow hm (by simpa using hp)⟩
          · exact absurd hv List.not_mem_nil
      · intro id hid
        rcases List.mem_append.mp hid with hid | hid
        · exact h.found id hid
        · obtain rfl := List.mem_singleton.mp hid
          exact ⟨depth, hle, hbelow⟩

end SubtreeWalk

namespace Store

variable {s : Store} {maxDepth : Nat}

lemma mem_groupSubtree {top id : String} {n : Nat} (h : s.Below top n id) (hn : n ≤ maxDepth) :
    id ∈ s.groupSubtree maxDepth top := by
  have hremaining : SubtreeWalk.remaining s ⟨[(top, 0)], []⟩ ≤ s.inheritance.length + 1 := by
    simp [SubtreeWalk.remaining, Nat.add_comm]
  have hstart : SubtreeWalk.Layered s maxDepth top [] ⟨[(top, 0)], []⟩ :=
    ⟨rfl, by simp, by simp, by simp, Or.inr List.mem_cons_self, by simp⟩
  obtain ⟨w, hrun, hend, depths, hl⟩ := Walk.exists_run_eq
    (P := fun w => ∃ depths, SubtreeWalk.Layered s maxDepth top depths w)
    (SubtreeWalk.remaining s) SubtreeWalk.remaining_lt
    (fun hs h => SubtreeWalk.Layered.next h hs) hremaining ⟨[], hstart⟩
  obtain ⟨d, hd, rfl, -⟩ := hl.found_of_below (SubtreeWalk.queue_of_step hend) h hn
  rw [groupSubtree, hrun, hl.found]
  exact List.mem_map_of_mem hd

lemma below_of_mem_groupSubtree {top id : String} (h : id ∈ s.groupSubtree maxDepth top) :
    ∃ n ≤ maxDepth, s.Below top n id := by
  have hstart : SubtreeWalk.Within s maxDepth top ⟨[(top, 0)], []⟩ := by
    refine ⟨fun v hv => ?_, fun g hg => absurd hg List.not_mem_nil⟩
    obtain rfl := List.mem_singleton.mp hv
    exact ⟨Nat.zero_le _, .here⟩
  exact (Walk.run_preserves SubtreeWalk.Within.next _ hstart).found id h

lemma self_mem_groupSubtree (s : Store) (maxDepth : Nat) (g : String) :
    g ∈ s.groupSubtree maxDepth g :=
  mem_groupSubtree .here (Nat.zero_le _)

lemma root_mem_groupSubtree {now : Instant} {roots : List String} {g : String}
    (hg : g ∈ (GroupWalk.inherited s maxDepth now roots).groups) :
    ∃ root ∈ roots, root ∈ s.groupSubtree maxDepth g := by
  obtain ⟨root, hr, organization, n, hn, hp⟩ := GroupWalk.mem_inherited hg
  exact ⟨root, hr, mem_groupSubtree hp.root_below hn⟩

lemma mem_principalsInSubtree {g principal : String} {m : Membership} (hm : m ∈ s.memberships)
    (hg : m.group ∈ s.groupSubtree maxDepth g) (hp : m.principal = principal) :
    principal ∈ s.principalsInSubtree maxDepth g := by
  rw [principalsInSubtree, Text.mem_sortedDistinct, List.mem_flatMap]
  refine ⟨m.group, hg, List.mem_map.mpr ⟨m, ?_, hp⟩⟩
  simp [membersOf, hm]

end Store

end AccessControl
