import AccessControl.Proofs.Tables
import AccessControl.Proofs.Walks
import AccessControl.Proofs.Windows
import Mathlib.Data.List.Basic

/-! The upward walk finds only groups that lie above one of its roots, over effective edges and
active groups of one organization. It ends before its steps run out, and depends on nothing but the
edges that leave the groups it finds; a group that no edge leaves leads to no other one. -/

namespace AccessControl

namespace Store

lemma group?_id {s : Store} {id : String} {g : Group} (h : s.group? id = some g) : g.id = id :=
  Table.key_of_get? h

lemma group?_insert (s : Store) (row : Group) (id : String) :
    ({ s with groups := s.groups.insert row } : Store).group? id =
      if row.id = id then some row else s.group? id :=
  Table.get?_insert s.groups row id

def ActiveIn (s : Store) (organization id : String) : Prop :=
  ∃ g, s.group? id = some g ∧ g.isActive = true ∧ g.organization = organization

def Inherits (s : Store) (now : Instant) (child parent : String) : Prop :=
  ∃ e ∈ s.inheritance, e.child = child ∧ e.parent = parent ∧ e.isEffective now = true

inductive GroupPath (s : Store) (now : Instant) (organization root : String) : Nat → String → Prop
  | here : s.ActiveIn organization root → GroupPath s now organization root 0 root
  | up {n id parent} : GroupPath s now organization root n id → s.Inherits now id parent →
      s.ActiveIn organization parent → GroupPath s now organization root (n + 1) parent

end Store

namespace GroupWalk

def visited (s : Store) (now : Instant) (w : GroupWalk) (v : GroupVisit) (queue : List GroupVisit)
    (group : Group) : GroupWalk where
  queue := queue ++ ((s.parentEdges group.id).filter (·.isEffective now)).map fun e =>
    ⟨e.parent, v.depth + 1, some group.organization⟩
  seen := v.group :: w.seen
  groups := w.groups ++ [group.id]
  truncated := w.truncated
  validUntil := (s.parentEdges group.id).foldl
    (fun bound e => earliest bound (transition e.isActive e.window now)) w.validUntil

variable (s : Store) (maxDepth : Nat) (now : Instant)

inductive Step : GroupWalk → GroupWalk → Prop
  | tooDeep {w : GroupWalk} {v queue} : w.queue = v :: queue → maxDepth < v.depth →
      Step w { w with queue := queue, truncated := true }
  | again {w : GroupWalk} {v queue} : w.queue = v :: queue → v.depth ≤ maxDepth →
      v.group ∈ w.seen → Step w { w with queue := queue }
  | pass {w : GroupWalk} {v queue} : w.queue = v :: queue → v.depth ≤ maxDepth →
      v.group ∉ w.seen →
      (∀ group, s.group? v.group = some group → admissible group v.organization = false) →
      Step w { w with queue := queue, seen := v.group :: w.seen }
  | visit {w : GroupWalk} {v queue group} : w.queue = v :: queue → v.depth ≤ maxDepth →
      v.group ∉ w.seen → s.group? v.group = some group →
      admissible group v.organization = true → Step w (visited s now w v queue group)

variable {s maxDepth now}

lemma step_cases {w w' : GroupWalk} (h : step s maxDepth now w = some w') :
    Step s maxDepth now w w' := by
  rw [step] at h
  cases hq : w.queue with
  | nil => simp [hq] at h
  | cons v queue =>
    simp only [hq] at h
    split at h
    · rename_i hd
      obtain rfl := Option.some.inj h
      exact .tooDeep hq hd
    · rename_i hd
      have hd := Nat.not_lt.mp hd
      split at h
      · rename_i hs
        obtain rfl := Option.some.inj h
        exact .again hq hd (by simpa using hs)
      · rename_i hs
        have hs : v.group ∉ w.seen := by simpa using hs
        split at h
        · rename_i hg
          obtain rfl := Option.some.inj h
          exact .pass hq hd hs (by simp [hg])
        · rename_i group hg
          split at h
          · rename_i ha
            obtain rfl := Option.some.inj h
            exact .visit hq hd hs hg ha
          · rename_i ha
            obtain rfl := Option.some.inj h
            exact .pass hq hd hs (by simpa [hg] using ha)

lemma step_of_cases {w w' : GroupWalk} (h : Step s maxDepth now w w') :
    step s maxDepth now w = some w' := by
  cases h with
  | tooDeep hq hd => simp [step, hq, hd]
  | again hq hd hs => simp [step, hq, Nat.not_lt.mpr hd, hs]
  | @pass v queue hq hd hs hn =>
    cases hg : s.group? v.group with
    | none => simp [step, hq, Nat.not_lt.mpr hd, hs, hg]
    | some group => simp [step, hq, Nat.not_lt.mpr hd, hs, hg, hn group hg]
  | visit hq hd hs hg ha => simp [step, hq, Nat.not_lt.mpr hd, hs, hg, ha, visited]

lemma step_of_queue {w : GroupWalk} (h : w.queue = []) : step s maxDepth now w = none := by
  simp [step, h]

lemma queue_of_step {w : GroupWalk} (h : step s maxDepth now w = none) : w.queue = [] := by
  cases hq : w.queue with
  | nil => rfl
  | cons v queue =>
    simp only [step, hq] at h
    repeat' split at h
    all_goals simp at h

/-! The number of steps. -/

def remaining (s : Store) (w : GroupWalk) : Nat :=
  w.queue.length + s.inheritance.countP fun e => !w.seen.contains e.child

lemma mem_cons_seen (v : String) (seen : List String) (x : String) :
    x ∈ v :: seen ↔ x = v ∨ x ∈ seen := List.mem_cons

lemma remaining_lt {w w' : GroupWalk} (h : step s maxDepth now w = some w') :
    remaining s w' < remaining s w := by
  cases step_cases h with
  | tooDeep hq _ => simp [remaining, hq]
  | again hq _ _ => simp [remaining, hq]
  | @pass v queue hq _ hs _ =>
    have := Walk.countP_unseen Inheritance.child s.inheritance (mem_cons_seen v.group w.seen) hs
    simp only [remaining, hq, List.length_cons]
    omega
  | @visit v queue group hq _ hs hg _ =>
    have := Walk.countP_unseen Inheritance.child s.inheritance (mem_cons_seen v.group w.seen) hs
    have hid := Store.group?_id hg
    have hle : ((s.parentEdges group.id).filter (·.isEffective now)).length ≤
        s.inheritance.countP fun e => e.child == v.group := by
      rw [hid, List.countP_eq_length_filter]
      exact List.length_filter_le _ _
    simp only [remaining, visited, hq, List.length_cons, List.length_append, List.length_map]
    omega

lemma fromRoot_queue (s : Store) (maxDepth : Nat) (now : Instant) (w : GroupWalk)
    (root : String) :
    (fromRoot s maxDepth now w root).queue = [] := by
  refine queue_of_step (Walk.run_ends (Walk.endsWithin_of_measure (remaining s) remaining_lt ?_))
  have := List.countP_le_length (l := s.inheritance) (p := fun e => !w.seen.contains e.child)
  simp only [remaining, List.length_cons, List.length_nil]
  omega

/-! What is found. -/

def Follows (s : Store) (now : Instant) (root : String) (v : GroupVisit) : Prop :=
  v = ⟨root, 0, none⟩ ∨ ∃ n organization child parent, v = ⟨parent, n + 1, some organization⟩ ∧
    s.GroupPath now organization root n child ∧ s.Inherits now child parent

lemma Follows.path {root : String} {v : GroupVisit} {group : Group} (h : Follows s now root v)
    (hg : s.group? v.group = some group) (ha : admissible group v.organization = true) :
    s.GroupPath now group.organization root v.depth v.group := by
  simp only [admissible, Bool.and_eq_true] at ha
  rcases h with rfl | ⟨n, organization, child, parent, rfl, hp, hi⟩
  · exact .here ⟨group, hg, ha.1, rfl⟩
  · obtain rfl : organization = group.organization := by simpa using ha.2
    exact .up hp hi ⟨group, hg, ha.1, rfl⟩

structure Sound (s : Store) (maxDepth : Nat) (now : Instant) (root : String) (old : List String)
    (w : GroupWalk) : Prop where
  follows : ∀ v ∈ w.queue, Follows s now root v
  found : ∀ g ∈ w.groups, g ∈ old ∨
    ∃ organization, ∃ n ≤ maxDepth, s.GroupPath now organization root n g

lemma Sound.next {root : String} {old : List String} {w w' : GroupWalk}
    (h : Sound s maxDepth now root old w) (hs : step s maxDepth now w = some w') :
    Sound s maxDepth now root old w' := by
  have hrest : ∀ {v queue}, w.queue = v :: queue → ∀ v' ∈ queue, Follows s now root v' :=
    fun hq v' hv => h.follows v' (hq ▸ List.mem_cons_of_mem _ hv)
  cases step_cases hs with
  | tooDeep hq _ => exact ⟨hrest hq, h.found⟩
  | again hq _ _ => exact ⟨hrest hq, h.found⟩
  | pass hq _ _ _ => exact ⟨hrest hq, h.found⟩
  | @visit v queue group hq hd _ hg ha =>
    have hpath := (h.follows v (hq ▸ List.mem_cons_self)).path hg ha
    have hid := Store.group?_id hg
    constructor
    · intro v' hv
      rcases List.mem_append.mp hv with hv | hv
      · exact hrest hq v' hv
      · obtain ⟨e, he, rfl⟩ := List.mem_map.mp hv
        simp only [List.mem_filter, Store.parentEdges, beq_iff_eq] at he
        exact Or.inr ⟨v.depth, group.organization, v.group, e.parent, rfl, hpath,
          e, he.1.1, he.1.2.trans hid, rfl, he.2⟩
    · intro g hm
      rcases List.mem_append.mp hm with hm | hm
      · exact h.found g hm
      · obtain rfl := List.mem_singleton.mp hm
        exact Or.inr ⟨group.organization, v.depth, hd, hid ▸ hpath⟩

lemma sound_fromRoot (w : GroupWalk) (root : String) :
    Sound s maxDepth now root w.groups (fromRoot s maxDepth now w root) :=
  Walk.run_preserves (fun hs h => Sound.next h hs) _
    ⟨fun _ hv => Or.inl (List.mem_singleton.mp hv), fun _ hm => Or.inl hm⟩

lemma mem_inherited {roots : List String} {g : String}
    (hg : g ∈ (inherited s maxDepth now roots).groups) :
    ∃ root ∈ roots, ∃ organization, ∃ n ≤ maxDepth, s.GroupPath now organization root n g := by
  have h : ∀ (roots : List String) (w : GroupWalk),
      g ∈ (roots.foldl (fromRoot s maxDepth now) w).groups → g ∈ w.groups ∨
        ∃ root ∈ roots, ∃ organization, ∃ n ≤ maxDepth, s.GroupPath now organization root n g := by
    intro roots
    induction roots with
    | nil => exact fun w hm => Or.inl hm
    | cons root roots ih =>
      intro w hm
      rcases ih _ hm with hm | ⟨root', hr, hp⟩
      · rcases (sound_fromRoot w root).found g hm with hm | hp
        · exact Or.inl hm
        · exact Or.inr ⟨root, List.mem_cons_self, hp⟩
      · exact Or.inr ⟨root', List.mem_cons_of_mem _ hr, hp⟩
  simpa [empty] using h roots empty hg

/-! What the walk depends on. -/

lemma groups_subset_of_step {w w' : GroupWalk} (h : step s maxDepth now w = some w') :
    ∀ g ∈ w.groups, g ∈ w'.groups := by
  cases step_cases h with
  | visit => exact fun g hg => List.mem_append_left _ hg
  | tooDeep | again | pass => exact fun g hg => hg

lemma groups_subset_fromRoot (w : GroupWalk) (root : String) :
    ∀ g ∈ w.groups, g ∈ (fromRoot s maxDepth now w root).groups := by
  rw [fromRoot]
  refine Walk.run_preserves (P := fun w' : GroupWalk => ∀ g ∈ w.groups, g ∈ w'.groups) ?_ _ ?_
  · exact fun hs h g hg => groups_subset_of_step hs g (h g hg)
  · exact fun g hg => hg

lemma step_congr {s' : Store} {t : Instant} {w w' : GroupWalk} (hgroups : s'.groups = s.groups)
    (h : step s maxDepth now w = some w')
    (hedges : ∀ v queue group, w' = visited s now w v queue group →
      visited s' t w v queue group = visited s now w v queue group) :
    step s' maxDepth t w = some w' := by
  have hg? : ∀ id, s'.group? id = s.group? id := fun id => by rw [Store.group?, hgroups]; rfl
  apply step_of_cases
  cases step_cases h with
  | tooDeep hq hd => exact .tooDeep hq hd
  | again hq hd hs => exact .again hq hd hs
  | pass hq hd hs hn => exact .pass hq hd hs (by simpa [hg?] using hn)
  | @visit v queue group hq hd hs hg ha =>
    rw [← hedges v queue group rfl]
    exact .visit hq hd hs ((hg? _).trans hg) ha

lemma before_of_step {t : Instant} {w w' : GroupWalk} (h : step s maxDepth now w = some w')
    (hb : Before t w'.validUntil) : Before t w.validUntil := by
  cases step_cases h with
  | visit => exact (Before.foldl_earliest.mp hb).1
  | tooDeep | again | pass => exact hb

lemma before_of_fromRoot {t : Instant} {w : GroupWalk} {root : String}
    (hb : Before t (fromRoot s maxDepth now w root).validUntil) : Before t w.validUntil := by
  rw [fromRoot] at hb
  have h := Walk.run_reflects (P := fun w : GroupWalk => Before t w.validUntil) before_of_step _ hb
  exact h

lemma visited_steady {t : Instant} {w : GroupWalk} {v : GroupVisit} {queue : List GroupVisit}
    {group : Group} (ht : now ≤ t) (hb : Before t (visited s now w v queue group).validUntil) :
    visited s t w v queue group = visited s now w v queue group := by
  have hsteady : ∀ e ∈ s.parentEdges group.id, SteadyRow e.isActive e.window now t :=
    fun e he => .of_before ht ((Before.foldl_earliest.mp hb).2 e he)
  have hfilter : (s.parentEdges group.id).filter (·.isEffective t) =
      (s.parentEdges group.id).filter (·.isEffective now) :=
    List.filter_congr fun e he => (hsteady e he).1
  have hbound : ∀ bound, (s.parentEdges group.id).foldl
      (fun bound e => earliest bound (transition e.isActive e.window t)) bound =
        (s.parentEdges group.id).foldl
          (fun bound e => earliest bound (transition e.isActive e.window now)) bound :=
    fun bound => List.foldl_ext _ _ _ fun _ e he => by rw [(hsteady e he).2]
  simp only [visited, hfilter, hbound]

lemma fromRoot_steady {t : Instant} {w : GroupWalk} {root : String} (ht : now ≤ t)
    (hb : Before t (fromRoot s maxDepth now w root).validUntil) :
    fromRoot s maxDepth t w root = fromRoot s maxDepth now w root := by
  unfold fromRoot at hb ⊢
  refine Walk.run_congr (P := fun w : GroupWalk => Before t w.validUntil) before_of_step ?_ ?_
    _ hb
  · exact fun h => step_of_queue (queue_of_step h)
  · intro w w' h hb'
    refine step_congr rfl h fun v queue group he => visited_steady ht ?_
    exact he ▸ hb'

lemma inherited_steady {t : Instant} {roots : List String} (ht : now ≤ t)
    (hb : Before t (inherited s maxDepth now roots).validUntil) :
    inherited s maxDepth t roots = inherited s maxDepth now roots :=
  (Walk.foldl_congr (P := fun w : GroupWalk => Before t w.validUntil)
    (fun _ h => before_of_fromRoot h) (fun _ h => fromRoot_steady ht h) hb).2

variable (edge : Inheritance)

lemma parentEdges_append {g : String} (h : edge.child ≠ g) :
    ({ s with inheritance := s.inheritance ++ [edge] } : Store).parentEdges g =
      s.parentEdges g := by
  simp [Store.parentEdges, h]

lemma step_append {w w' : GroupWalk} (h : step s maxDepth now w = some w')
    (hn : edge.child ∉ w'.groups) :
    step { s with inheritance := s.inheritance ++ [edge] } maxDepth now w = some w' := by
  refine step_congr (s := s) rfl h ?_
  rintro v queue group rfl
  have hne : edge.child ≠ group.id := by
    rintro he
    simp [visited, he] at hn
  simp only [visited, parentEdges_append edge hne]

lemma fromRoot_append {w : GroupWalk} {root : String}
    (h : edge.child ∉ (fromRoot s maxDepth now w root).groups) :
    fromRoot { s with inheritance := s.inheritance ++ [edge] } maxDepth now w root =
      fromRoot s maxDepth now w root := by
  have hdone := fromRoot_queue s maxDepth now w root
  unfold fromRoot at h hdone ⊢
  have hrun := Walk.run_congr (P := fun w : GroupWalk => edge.child ∉ w.groups)
    (fun hs hg hm => hg (groups_subset_of_step hs _ hm))
    (fun hs => step_of_queue (queue_of_step hs)) (step_append edge) (s.inheritance.length + 1) h
  rw [List.length_append, List.length_singleton, Walk.run_succ_of_done, hrun]
  rw [hrun]
  exact step_of_queue hdone

lemma inherited_append {roots : List String}
    (h : edge.child ∉ (inherited s maxDepth now roots).groups) :
    inherited { s with inheritance := s.inheritance ++ [edge] } maxDepth now roots =
      inherited s maxDepth now roots :=
  (Walk.foldl_congr (P := fun w : GroupWalk => edge.child ∉ w.groups)
    (fun _ hg hm => hg (groups_subset_fromRoot _ _ _ hm)) (fun _ hg => fromRoot_append edge hg)
    h).2

/-! A group that is written. -/

structure Beside (g : String) (w w' : GroupWalk) : Prop where
  queue : w'.queue = w.queue
  seen : w'.seen = w.seen
  groups : ∀ x ∈ w'.groups, x ≠ g → x ∈ w.groups

variable {row : Group}

lemma step_written {w : GroupWalk} {v : GroupVisit} {queue : List GroupVisit}
    (hedges : (s.parentEdges row.id).filter (·.isEffective now) = []) (hq : w.queue = v :: queue)
    (hd : v.depth ≤ maxDepth) (hs : v.group ∉ w.seen) (hv : row.id = v.group) :
    ∃ w', step { s with groups := s.groups.insert row } maxDepth now w = some w' ∧
      w'.queue = queue ∧ w'.seen = v.group :: w.seen ∧
        ∀ x ∈ w'.groups, x ≠ row.id → x ∈ w.groups := by
  have hg : ({ s with groups := s.groups.insert row } : Store).group? v.group = some row := by
    rw [Store.group?_insert, if_pos hv]
  by_cases ha : admissible row v.organization = true
  · have hempty : (({ s with groups := s.groups.insert row } : Store).parentEdges row.id).filter
        (·.isEffective now) = [] := hedges
    refine ⟨_, step_of_cases (.visit hq hd hs hg ha), ?_, rfl, fun x hx hne => ?_⟩
    · simp only [visited, hempty, List.map_nil, List.append_nil]
    · rcases List.mem_append.mp hx with hx | hx
      · exact hx
      · exact absurd (List.mem_singleton.mp hx) hne
  · refine ⟨_, step_of_cases (.pass hq hd hs fun group hg' => ?_), rfl, rfl, fun x hx _ => hx⟩
    obtain rfl := Option.some.inj (hg.symm.trans hg')
    simpa using ha

lemma Beside.next {w w' w₁ : GroupWalk}
    (hedges : (s.parentEdges row.id).filter (·.isEffective now) = []) (h : Beside row.id w w')
    (hs : step s maxDepth now w = some w₁) :
    ∃ w₁', step { s with groups := s.groups.insert row } maxDepth now w' = some w₁' ∧
      Beside row.id w₁ w₁' := by
  have hother : ∀ {id}, row.id ≠ id →
      ({ s with groups := s.groups.insert row } : Store).group? id = s.group? id := by
    intro id hne
    rw [Store.group?_insert, if_neg hne]
  cases step_cases hs with
  | tooDeep hq hd =>
    exact ⟨_, step_of_cases (.tooDeep (h.queue.trans hq) hd), rfl, h.seen, h.groups⟩
  | again hq hd hm =>
    exact ⟨_, step_of_cases (.again (h.queue.trans hq) hd (h.seen ▸ hm)), rfl, h.seen, h.groups⟩
  | @pass v queue hq hd hm hn =>
    rw [← h.seen] at hm
    by_cases hv : row.id = v.group
    · obtain ⟨w₁', hs', hqueue, hseen, hgroups⟩ :=
        step_written hedges (h.queue.trans hq) hd hm hv
      exact ⟨w₁', hs', hqueue, hseen.trans (congrArg (v.group :: ·) h.seen),
        fun x hx hne => h.groups x (hgroups x hx hne) hne⟩
    · refine ⟨_, step_of_cases (.pass (h.queue.trans hq) hd hm ?_), rfl, ?_, h.groups⟩
      · simpa only [hother hv] using hn
      · exact congrArg (v.group :: ·) h.seen
  | @visit v queue group hq hd hm hg ha =>
    rw [← h.seen] at hm
    by_cases hv : row.id = v.group
    · obtain ⟨w₁', hs', hqueue, hseen, hgroups⟩ :=
        step_written hedges (h.queue.trans hq) hd hm hv
      have hid : group.id = row.id := (Store.group?_id hg).trans hv.symm
      refine ⟨w₁', hs', ?_, hseen.trans (congrArg (v.group :: ·) h.seen), fun x hx hne => ?_⟩
      · simp only [visited, hid, hedges, List.map_nil, List.append_nil, hqueue]
      · exact List.mem_append_left _ (h.groups x (hgroups x hx hne) hne)
    · refine ⟨_, step_of_cases (.visit (h.queue.trans hq) hd hm ((hother hv).trans hg) ha), rfl,
        congrArg (v.group :: ·) h.seen, fun x hx hne => ?_⟩
      rcases List.mem_append.mp hx with hx | hx
      · exact List.mem_append_left _ (h.groups x hx hne)
      · exact List.mem_append_right _ hx

lemma Beside.fromRoot {w w' : GroupWalk}
    (hedges : (s.parentEdges row.id).filter (·.isEffective now) = []) (h : Beside row.id w w')
    (root : String) : Beside row.id (fromRoot s maxDepth now w root)
      (fromRoot { s with groups := s.groups.insert row } maxDepth now w' root) := by
  refine Walk.run_related (R := Beside row.id) ?_ (fun h hs => h.next hedges hs) _
    ⟨rfl, h.seen, h.groups⟩
  intro w w' h hs
  exact step_of_queue (h.queue.trans (queue_of_step hs))

lemma mem_inherited_written {roots : List String}
    (hedges : (s.parentEdges row.id).filter (·.isEffective now) = []) {g : String}
    (hg : g ∈ (inherited { s with groups := s.groups.insert row } maxDepth now roots).groups)
    (hne : g ≠ row.id) : g ∈ (inherited s maxDepth now roots).groups := by
  have hfold : ∀ (roots : List String) {w w' : GroupWalk}, Beside row.id w w' →
      Beside row.id (roots.foldl (GroupWalk.fromRoot s maxDepth now) w)
        (roots.foldl (GroupWalk.fromRoot { s with groups := s.groups.insert row } maxDepth now)
          w') := by
    intro roots
    induction roots with
    | nil => exact fun h => h
    | cons root roots ih => exact fun h => ih (h.fromRoot hedges root)
  exact (hfold roots ⟨rfl, rfl, fun x hx _ => hx⟩).groups g hg hne

end GroupWalk

end AccessControl
