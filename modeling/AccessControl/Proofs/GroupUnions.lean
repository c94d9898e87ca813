import AccessControl.Proofs.GroupWalks
import Mathlib.Data.List.Nodup

/-! Upward from one root the walk finds every group that lies within the depth limit above it. The
roots share what was seen: from several of them, it finds what lies above each only if no group is
turned away from one root, or met too far from it, that counts for another one. -/

namespace AccessControl

namespace Store

def LiesAbove (s : Store) (now : Instant) (limit : Nat) (root g : String) : Prop :=
  ∃ organization, ∃ n ≤ limit, s.GroupPath now organization root n g

variable {s : Store} {now : Instant} {organization root id : String} {n : Nat}

lemma ActiveIn.unique {organization' : String} (h : s.ActiveIn organization id)
    (h' : s.ActiveIn organization' id) : organization' = organization := by
  obtain ⟨g, hg, -, rfl⟩ := h
  obtain ⟨g', hg', -, rfl⟩ := h'
  rw [Option.some.inj (hg.symm.trans hg')]

lemma GroupPath.active (h : s.GroupPath now organization root n id) :
    s.ActiveIn organization id := by
  cases h with
  | here ha => exact ha
  | up _ _ ha => exact ha

lemma GroupPath.root_active (h : s.GroupPath now organization root n id) :
    s.ActiveIn organization root := by
  induction h with
  | here ha => exact ha
  | up _ _ _ ih => exact ih

lemma GroupPath.trans {m : Nat} {mid : String} (h : s.GroupPath now organization root n mid)
    (h' : s.GroupPath now organization mid m id) :
    s.GroupPath now organization root (n + m) id := by
  induction h' with
  | here => exact h
  | up _ hi ha ih => exact .up ih hi ha

lemma GroupPath.first_edge (h : s.GroupPath now organization root (n + 1) id) :
    ∃ next, s.Inherits now root next ∧ s.GroupPath now organization next n id := by
  induction n generalizing id with
  | zero =>
    obtain _ | ⟨h, hi, ha⟩ := h
    obtain ⟨-⟩ := h
    exact ⟨id, hi, .here ha⟩
  | succ n ih =>
    obtain _ | ⟨h, hi, ha⟩ := h
    obtain ⟨next, hnext, hp⟩ := ih h
    exact ⟨next, hnext, .up hp hi ha⟩

end Store

namespace GroupWalk

variable {s : Store} {maxDepth : Nat} {now : Instant} {root : String}

/-! No group is found twice. -/

structure Once (w : GroupWalk) : Prop where
  nodup : w.groups.Nodup
  seen : ∀ g ∈ w.groups, g ∈ w.seen

lemma Once.next {w w' : GroupWalk} (hs : step s maxDepth now w = some w') (h : Once w) :
    Once w' := by
  cases step_cases hs with
  | tooDeep | again => exact ⟨h.nodup, h.seen⟩
  | pass => exact ⟨h.nodup, fun g hg => List.mem_cons_of_mem _ (h.seen g hg)⟩
  | @visit v queue group _ _ hm hg _ =>
    have hid := Store.group?_id hg
    constructor
    · refine h.nodup.append (List.nodup_singleton _) (List.disjoint_singleton.mpr fun hfound => ?_)
      exact hm (hid ▸ h.seen _ hfound)
    · intro g hfound
      rcases List.mem_append.mp hfound with hfound | hfound
      · exact List.mem_cons_of_mem _ (h.seen g hfound)
      · obtain rfl := List.mem_singleton.mp hfound
        exact hid ▸ List.mem_cons_self

lemma nodup_inherited (s : Store) (maxDepth : Nat) (now : Instant) (roots : List String) :
    (inherited s maxDepth now roots).groups.Nodup := by
  have hfold : ∀ (roots : List String) {w : GroupWalk}, Once w →
      Once (roots.foldl (fromRoot s maxDepth now) w) := by
    intro roots
    induction roots with
    | nil => exact fun h => h
    | cons root roots ih =>
      exact fun h => ih (Walk.run_preserves Once.next _ ⟨h.nodup, h.seen⟩)
  exact (hfold roots ⟨List.nodup_nil, by simp [empty]⟩).nodup

/-! What the walk from one root meets, layer by layer. -/

def Admits (s : Store) (v : GroupVisit) : Prop :=
  ∃ group, s.group? v.group = some group ∧ admissible group v.organization = true

def Met (old : List String) (trail : List GroupVisit) (id : String) (depth : Nat) : Prop :=
  id ∈ old ∨ ∃ v ∈ trail, v.group = id ∧ v.depth ≤ depth

structure Layered (s : Store) (maxDepth : Nat) (now : Instant) (root : String)
    (old : List String) (made : List GroupVisit) (w : GroupWalk) : Prop where
  seen : ∀ x, x ∈ w.seen ↔ x ∈ old ∨ ∃ v ∈ made, v.group = x
  follows : ∀ v ∈ made ++ w.queue, Follows s now root v
  within : ∀ v ∈ made, v.depth ≤ maxDepth
  ordered : (made ++ w.queue).Pairwise fun a b => a.depth ≤ b.depth
  narrow : ∀ a ∈ w.queue, ∀ b ∈ w.queue, b.depth ≤ a.depth + 1
  begun : Met old (made ++ w.queue) root 0
  found : ∀ v ∈ made, Admits s v → v.group ∈ w.groups
  covered : ∀ v ∈ made, Admits s v → v.depth < maxDepth → ∀ parent,
    s.Inherits now v.group parent → Met old (made ++ w.queue) parent (v.depth + 1)

lemma Met.mono {old : List String} {trail trail' : List GroupVisit} {id : String} {depth : Nat}
    (h : Met old trail id depth) (hsub : trail ⊆ trail') : Met old trail' id depth := by
  refine h.imp_right ?_
  rintro ⟨v, hv, hspec⟩
  exact ⟨v, hsub hv, hspec⟩

variable {old : List String} {made : List GroupVisit} {w w' : GroupWalk} {v : GroupVisit}
  {queue : List GroupVisit}

lemma Layered.drop (h : Layered s maxDepth now root old made w) (hq : w.queue = v :: queue)
    (hqueue : w'.queue = queue) (hseen : w'.seen = w.seen) (hgroups : w'.groups = w.groups)
    (hloss : v.depth ≤ maxDepth → v.group ∈ w.seen) :
    Layered s maxDepth now root old made w' := by
  have hsub : (made ++ w'.queue).Sublist (made ++ w.queue) := by
    rw [hqueue, hq]
    exact (List.sublist_cons_self _ _).append_left _
  -- The visit that is passed over met nothing new: its group was visited before, no further up.
  have hmet : ∀ {id depth}, depth ≤ maxDepth → Met old (made ++ w.queue) id depth →
      Met old (made ++ w'.queue) id depth := by
    rintro id depth hdepth (hold | ⟨u, hu, rfl, hle⟩)
    · exact Or.inl hold
    · rw [hq] at hu
      rcases List.mem_append.mp hu with hu | hu
      · exact Or.inr ⟨u, List.mem_append_left _ hu, rfl, hle⟩
      rcases List.mem_cons.mp hu with rfl | hu
      · rcases (h.seen u.group).mp (hloss (Nat.le_trans hle hdepth)) with hold | ⟨u', hu', he⟩
        · exact Or.inl hold
        · have hord := (List.pairwise_append.mp h.ordered).2.2 u' hu' u (hq ▸ List.mem_cons_self)
          exact Or.inr ⟨u', List.mem_append_left _ hu', he, Nat.le_trans hord hle⟩
      · exact Or.inr ⟨u, List.mem_append_right _ (hqueue ▸ hu), rfl, hle⟩
  have hrest : ∀ a ∈ w'.queue, a ∈ w.queue := fun a ha =>
    hq ▸ List.mem_cons_of_mem _ (hqueue ▸ ha)
  constructor
  case seen => exact hseen ▸ h.seen
  case follows => exact fun u hu => h.follows u (hsub.subset hu)
  case within => exact h.within
  case ordered => exact h.ordered.sublist hsub
  case narrow => exact fun a ha b hb => h.narrow a (hrest a ha) b (hrest b hb)
  case begun => exact hmet (Nat.zero_le _) h.begun
  case found => exact hgroups ▸ h.found
  case covered => exact fun u hu ha hlt parent hp => hmet hlt (h.covered u hu ha hlt parent hp)

lemma Layered.behind (h : Layered s maxDepth now root old made w) (hq : w.queue = v :: queue)
    {u : GroupVisit} (hu : u ∈ queue) : v.depth ≤ u.depth ∧ u.depth ≤ v.depth + 1 := by
  have hord := (List.pairwise_append.mp h.ordered).2.1
  rw [hq] at hord
  exact ⟨(List.pairwise_cons.mp hord).1 u hu,
    h.narrow v (hq ▸ List.mem_cons_self) u (hq ▸ List.mem_cons_of_mem _ hu)⟩

lemma Layered.ordered_append {more : List GroupVisit} (h : Layered s maxDepth now root old made w)
    (hq : w.queue = v :: queue) (hmore : ∀ u ∈ more, u.depth = v.depth + 1) :
    (made ++ w.queue ++ more).Pairwise fun a b => a.depth ≤ b.depth := by
  refine List.pairwise_append.mpr ⟨h.ordered, ?_, fun a ha b hb => ?_⟩
  · exact List.pairwise_of_forall_mem_list fun a ha b hb =>
      Nat.le_of_eq ((hmore a ha).trans (hmore b hb).symm)
  · rw [hmore b hb]
    rcases List.mem_append.mp ha with ha | ha
    · exact Nat.le_succ_of_le
        ((List.pairwise_append.mp h.ordered).2.2 a ha v (hq ▸ List.mem_cons_self))
    · rw [hq] at ha
      rcases List.mem_cons.mp ha with rfl | ha
      · exact Nat.le_succ _
      · exact (h.behind hq ha).2

lemma Layered.make {more : List GroupVisit} (h : Layered s maxDepth now root old made w)
    (hq : w.queue = v :: queue) (hd : v.depth ≤ maxDepth) (hqueue : w'.queue = queue ++ more)
    (hseen : w'.seen = v.group :: w.seen) (hgroups : w.groups ⊆ w'.groups)
    (hmore : ∀ u ∈ more, u.depth = v.depth + 1 ∧ Follows s now root u)
    (hall : Admits s v → v.group ∈ w'.groups ∧
      ∀ parent, s.Inherits now v.group parent → ∃ u ∈ more, u.group = parent) :
    Layered s maxDepth now root old (made ++ [v]) w' := by
  have htrail : made ++ [v] ++ w'.queue = (made ++ w.queue) ++ more := by
    simp [hqueue, hq]
  have hsub : made ++ w.queue ⊆ (made ++ w.queue) ++ more := List.subset_append_left _ _
  have hnew : ∀ a ∈ w'.queue, v.depth ≤ a.depth ∧ a.depth ≤ v.depth + 1 := by
    intro a ha
    rw [hqueue] at ha
    rcases List.mem_append.mp ha with ha | ha
    · exact h.behind hq ha
    · have := (hmore a ha).1
      omega
  constructor
  case seen =>
    intro x
    rw [hseen, List.mem_cons, h.seen]
    simp only [List.mem_append, List.mem_singleton, or_and_right, exists_or, exists_eq_left]
    rw [eq_comm (a := x)]
    exact or_rotate
  case follows =>
    intro u hu
    rw [htrail] at hu
    rcases List.mem_append.mp hu with hu | hu
    · exact h.follows u hu
    · exact (hmore u hu).2
  case within =>
    intro u hu
    rcases List.mem_append.mp hu with hu | hu
    · exact h.within u hu
    · obtain rfl := List.mem_singleton.mp hu
      exact hd
  case ordered => exact htrail ▸ h.ordered_append hq fun u hu => (hmore u hu).1
  case narrow =>
    intro a ha b hb
    exact Nat.le_trans (hnew b hb).2 (Nat.succ_le_succ (hnew a ha).1)
  case begun => exact htrail ▸ h.begun.mono hsub
  case found =>
    intro u hu ha
    rcases List.mem_append.mp hu with hu | hu
    · exact hgroups (h.found u hu ha)
    · obtain rfl := List.mem_singleton.mp hu
      exact (hall ha).1
  case covered =>
    intro u hu ha hlt parent hp
    rw [htrail]
    rcases List.mem_append.mp hu with hu | hu
    · exact (h.covered u hu ha hlt parent hp).mono hsub
    · obtain rfl := List.mem_singleton.mp hu
      obtain ⟨u', hu', rfl⟩ := (hall ha).2 parent hp
      exact Or.inr ⟨u', List.mem_append_right _ hu', rfl, Nat.le_of_eq (hmore u' hu').1⟩

lemma Layered.next (hs : step s maxDepth now w = some w')
    (h : ∃ made, Layered s maxDepth now root old made w) :
    ∃ made, Layered s maxDepth now root old made w' := by
  obtain ⟨made, h⟩ := h
  cases step_cases hs with
  | tooDeep hq hd =>
    exact ⟨made, h.drop hq rfl rfl rfl fun hle => absurd hd (Nat.not_lt.mpr hle)⟩
  | again hq _ hm => exact ⟨made, h.drop hq rfl rfl rfl fun _ => hm⟩
  | @pass v queue hq hd _ hn =>
    refine ⟨made ++ [v], h.make hq hd (List.append_nil queue).symm rfl (.refl _)
      (by simp) ?_⟩
    rintro ⟨group, hg, ha⟩
    exact absurd ha (by simp [hn group hg])
  | @visit v queue group hq hd _ hg ha =>
    have hid := Store.group?_id hg
    have hpath := (h.follows v (by simp [hq])).path hg ha
    refine ⟨made ++ [v], h.make hq hd rfl rfl (List.subset_append_left _ _) ?_ fun _ => ⟨?_, ?_⟩⟩
    · intro u hu
      obtain ⟨e, he, rfl⟩ := List.mem_map.mp hu
      simp only [List.mem_filter, Store.parentEdges, beq_iff_eq] at he
      exact ⟨rfl, Or.inr ⟨v.depth, group.organization, v.group, e.parent, rfl, hpath,
        e, he.1.1, he.1.2.trans hid, rfl, he.2⟩⟩
    · exact List.mem_append_right _ (List.mem_singleton.mpr hid.symm)
    · rintro parent ⟨e, he, hchild, rfl, heffective⟩
      refine ⟨_, List.mem_map.mpr ⟨e, List.mem_filter.mpr ⟨?_, heffective⟩, rfl⟩, rfl⟩
      simp [Store.parentEdges, he, hchild, hid]

lemma layered_fromRoot (s : Store) (maxDepth : Nat) (now : Instant) (w : GroupWalk)
    (root : String) :
    ∃ made, Layered s maxDepth now root w.seen made (fromRoot s maxDepth now w root) := by
  refine Walk.run_preserves (P := fun w' => ∃ made, Layered s maxDepth now root w.seen made w')
    Layered.next _ ⟨[], ?_⟩
  constructor <;> simp [Follows, Met]

/-! What is found from one root. -/

section root

variable {organization g : String} {n : Nat}

lemma Follows.admits (h : Follows s now root v)
    (hp : s.GroupPath now organization root n v.group) : Admits s v := by
  obtain ⟨group, hg, hactive, ho⟩ := hp.active
  refine ⟨group, hg, ?_⟩
  rcases h with rfl | ⟨m, organization', child, parent, rfl, hchild, -⟩
  · simpa [admissible] using hactive
  · have := hchild.root_active.unique hp.root_active
    simp [admissible, hactive, ho, this]

lemma Layered.made_of_path (h : Layered s maxDepth now root old made w) (hq : w.queue = [])
    (hp : s.GroupPath now organization root n g) (hn : n ≤ maxDepth) :
    (∃ v ∈ made, v.group = g ∧ v.depth ≤ n) ∨
      ∃ x ∈ old, ∃ m ≤ n, s.GroupPath now organization x m g := by
  have hmet : ∀ {id depth}, Met old (made ++ w.queue) id depth →
      id ∈ old ∨ ∃ v ∈ made, v.group = id ∧ v.depth ≤ depth := by
    intro id depth hm
    rwa [hq, List.append_nil] at hm
  induction hp with
  | here ha =>
    rcases hmet h.begun with hold | hmade
    · exact Or.inr ⟨root, hold, 0, Nat.le_refl _, .here ha⟩
    · exact Or.inl hmade
  | @up n id parent hp hi ha ih =>
    rcases ih (Nat.le_of_succ_le hn) with ⟨v, hv, rfl, hle⟩ | ⟨x, hx, m, hm, hpx⟩
    · have hadmits := (h.follows v (List.mem_append_left _ hv)).admits hp
      rcases hmet (h.covered v hv hadmits (Nat.lt_of_le_of_lt hle hn) parent hi) with hold | hmade
      · exact Or.inr ⟨parent, hold, 0, Nat.zero_le _, .here ha⟩
      · obtain ⟨u, hu, he, hdepth⟩ := hmade
        exact Or.inl ⟨u, hu, he, Nat.le_trans hdepth (Nat.succ_le_succ hle)⟩
    · exact Or.inr ⟨x, hx, m + 1, Nat.succ_le_succ hm, .up hpx hi ha⟩

def Closed (s : Store) (maxDepth : Nat) (now : Instant) (w : GroupWalk) : Prop :=
  ∀ x ∈ w.seen, ∀ g, s.LiesAbove now maxDepth x g → g ∈ w.groups

lemma mem_fromRoot (hw : Closed s maxDepth now w) (h : s.LiesAbove now maxDepth root g) :
    g ∈ (fromRoot s maxDepth now w root).groups := by
  obtain ⟨made, hl⟩ := layered_fromRoot s maxDepth now w root
  obtain ⟨organization, n, hn, hp⟩ := h
  rcases hl.made_of_path (fromRoot_queue ..) hp hn with ⟨v, hv, rfl, -⟩ | ⟨x, hx, m, hm, hpx⟩
  · exact hl.found v hv ((hl.follows v (List.mem_append_left _ hv)).admits hp)
  · exact groups_subset_fromRoot w root g
      (hw x hx g ⟨organization, m, Nat.le_trans hm hn, hpx⟩)

lemma closed_empty (s : Store) (maxDepth : Nat) (now : Instant) :
    Closed s maxDepth now empty :=
  fun _ hx => absurd hx List.not_mem_nil

theorem mem_inherited_root :
    g ∈ (inherited s maxDepth now [root]).groups ↔ s.LiesAbove now maxDepth root g := by
  constructor
  · intro hg
    obtain ⟨root', hr, hp⟩ := mem_inherited hg
    obtain rfl := List.mem_singleton.mp hr
    exact hp
  · exact mem_fromRoot (closed_empty s maxDepth now)

end root

end GroupWalk

namespace Store

/-- No edge leads out of an organization, and no group lies above another one only out of reach. -/
structure Unhindered (s : Store) (now : Instant) (maxDepth : Nat) : Prop where
  domestic : ∀ child parent organization organization', s.Inherits now child parent →
    s.ActiveIn organization child → s.ActiveIn organization' parent →
      organization' = organization
  shallow : ∀ organization root n g, s.GroupPath now organization root n g →
    s.LiesAbove now maxDepth root g

end Store

namespace GroupWalk

variable {s : Store} {maxDepth : Nat} {now : Instant} {root : String} {w : GroupWalk}

lemma Closed.fromRoot (hs : maxDepth = 0 ∨ s.Unhindered now maxDepth)
    (h : Closed s maxDepth now w) :
    Closed s maxDepth now (fromRoot s maxDepth now w root) := by
  intro x hx g hg
  obtain ⟨made, hl⟩ := layered_fromRoot s maxDepth now w root
  rcases (hl.seen x).mp hx with hold | ⟨v, hv, rfl⟩
  · exact groups_subset_fromRoot w root g (h x hold g hg)
  have hfollows := hl.follows v (List.mem_append_left _ hv)
  rcases hfollows with rfl | ⟨n, organization, child, parent, rfl, hchild, hi⟩
  · exact mem_fromRoot h hg
  · have hs : s.Unhindered now maxDepth := by
      refine hs.resolve_left fun hzero => ?_
      exact Nat.not_succ_le_zero n (hzero ▸ hl.within _ hv)
    obtain ⟨organization', m, -, hp⟩ := hg
    obtain rfl := hs.domestic _ _ _ _ hi hchild.active hp.root_active
    exact mem_fromRoot h
      (hs.shallow _ _ _ _ ((Store.GroupPath.up hchild hi hp.root_active).trans hp))

lemma mem_inherited_of_root (hs : maxDepth = 0 ∨ s.Unhindered now maxDepth)
    {roots : List String} {g : String} (hr : root ∈ roots)
    (h : s.LiesAbove now maxDepth root g) : g ∈ (inherited s maxDepth now roots).groups := by
  have hgroups : ∀ (roots : List String) (w : GroupWalk),
      ∀ g ∈ w.groups, g ∈ (roots.foldl (GroupWalk.fromRoot s maxDepth now) w).groups := by
    intro roots
    induction roots with
    | nil => exact fun _ _ hg => hg
    | cons root roots ih =>
      exact fun w g hg => ih _ g (groups_subset_fromRoot w root g hg)
  have hfold : ∀ (roots : List String) (w : GroupWalk), Closed s maxDepth now w →
      root ∈ roots → g ∈ (roots.foldl (GroupWalk.fromRoot s maxDepth now) w).groups := by
    intro roots
    induction roots with
    | nil => exact fun _ _ hr => absurd hr List.not_mem_nil
    | cons root' roots ih =>
      intro w hw hr
      rcases List.mem_cons.mp hr with rfl | hr
      · exact hgroups roots _ g (mem_fromRoot hw h)
      · exact ih _ (hw.fromRoot hs) hr
  exact hfold roots empty (closed_empty s maxDepth now) hr

/-! The roots share what was seen. -/

lemma fromRoot_of_seen (hq : w.queue = []) (hm : root ∈ w.seen) :
    fromRoot s maxDepth now w root = w := by
  have hstep : step s maxDepth now { w with queue := [⟨root, 0, none⟩] } = some w := by
    refine (step_of_cases (.again rfl (Nat.zero_le _) hm)).trans (congrArg some ?_)
    rw [← hq]
  rw [fromRoot, Walk.run, hstep]
  exact Walk.run_of_done (step_of_queue hq) _

lemma inherited_above (hd : 0 < maxDepth) {organization parent : String}
    (ha : s.ActiveIn organization root) (hi : s.Inherits now root parent) :
    inherited s maxDepth now [root, parent] = inherited s maxDepth now [root] := by
  obtain ⟨made, hl⟩ := layered_fromRoot s maxDepth now empty root
  have hqueue := fromRoot_queue s maxDepth now empty root
  have hmet : ∀ {id depth}, Met empty.seen (made ++ (fromRoot s maxDepth now empty root).queue) id
      depth → ∃ v ∈ made, v.group = id ∧ v.depth ≤ depth := by
    rintro id depth (hold | hm)
    · exact absurd hold List.not_mem_nil
    · rwa [hqueue, List.append_nil] at hm
  obtain ⟨v, hv, rfl, hle⟩ := hmet hl.begun
  have hadmits := (hl.follows v (List.mem_append_left _ hv)).admits (.here ha)
  obtain ⟨u, hu, rfl, -⟩ :=
    hmet (hl.covered v hv hadmits (Nat.lt_of_le_of_lt hle hd) parent hi)
  exact fromRoot_of_seen hqueue ((hl.seen u.group).mpr (Or.inr ⟨u, hu, rfl⟩))

lemma unhindered_of_union (hd : 0 < maxDepth)
    (h : ∀ roots, ∀ root ∈ roots, ∀ g, s.LiesAbove now maxDepth root g →
      g ∈ (inherited s maxDepth now roots).groups) : s.Unhindered now maxDepth := by
  have habove : ∀ {organization root parent g}, s.ActiveIn organization root →
      s.Inherits now root parent → s.LiesAbove now maxDepth parent g →
        s.LiesAbove now maxDepth root g := by
    intro organization root parent g ha hi hg
    have hfound := h [root, parent] parent (by simp) g hg
    rw [inherited_above hd ha hi] at hfound
    exact mem_inherited_root.mp hfound
  constructor
  case domestic =>
    intro child parent organization organization' hi hchild hparent
    obtain ⟨_, n, -, hp⟩ := habove hchild hi ⟨organization', 0, Nat.zero_le _, .here hparent⟩
    exact (hp.active.unique hparent).trans (hp.root_active.unique hchild).symm
  case shallow =>
    intro organization root n g hp
    induction n generalizing root with
    | zero => exact ⟨organization, 0, Nat.zero_le _, hp⟩
    | succ n ih =>
      obtain ⟨next, hi, hnext⟩ := hp.first_edge
      exact habove hp.root_active hi (ih next hnext)

/-- Each group is found once, and from one root exactly those above it. From any roots exactly those
above one of them are found if and only if nothing hinders the walk, or it goes no further than its
roots. -/
theorem inherited_union_iff (s : Store) (maxDepth : Nat) (now : Instant) :
    (∀ roots, (inherited s maxDepth now roots).groups.Nodup) ∧
    (∀ root g, g ∈ (inherited s maxDepth now [root]).groups ↔
      s.LiesAbove now maxDepth root g) ∧
    ((∀ roots g, g ∈ (inherited s maxDepth now roots).groups ↔
        ∃ root ∈ roots, s.LiesAbove now maxDepth root g) ↔
      maxDepth = 0 ∨ s.Unhindered now maxDepth) := by
  refine ⟨nodup_inherited s maxDepth now, fun _ _ => mem_inherited_root, ?_, fun hs roots g => ?_⟩
  · intro h
    refine (Nat.eq_zero_or_pos maxDepth).imp_right fun hd => unhindered_of_union hd ?_
    exact fun roots root hr g hg => (h roots g).mpr ⟨root, hr, hg⟩
  · refine ⟨mem_inherited, ?_⟩
    rintro ⟨root, hr, hg⟩
    exact mem_inherited_of_root hs hr hg

def crossing : Store :=
  { Store.empty with
    groups := .ofList [.root "guild" "guild" "acme", .root "team" "team" "umbra"]
    inheritance := [.between "i" "team" "guild"] }

example : "team" ∈ (inherited crossing 8 ⟨0, 0⟩ ["team"]).groups ∧
    "team" ∉ (inherited crossing 8 ⟨0, 0⟩ ["guild", "team"]).groups := by
  decide +kernel

end GroupWalk

end AccessControl
