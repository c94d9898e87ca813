import AccessControl.Resolution
import AccessControl.Proofs.Tables
import AccessControl.Proofs.Walks

/-! A walk from a role up its parents collects what parent links reach within the depth limit, each
role under the length of a shortest path, and nothing else. Roles count while they are stored, live
and seen from the organization. -/

namespace AccessControl

namespace Store

def Usable (s : Store) (organization : Option String) (id : String) (role : Role) : Prop :=
  s.role? id = some role ∧ role.isLive = true ∧ role.visibleTo organization = true

/-- A number of parent links lead from a role to another, through usable roles only. -/
inductive RolePath (s : Store) (organization : Option String) : Nat → String → String → Prop
  | here {id role} : s.Usable organization id role → RolePath s organization 0 id id
  | up {n start id role parent above} : RolePath s organization n start id →
      s.role? id = some role → role.parent = some parent →
      s.Usable organization parent above → RolePath s organization (n + 1) start parent

inductive LinkedAbove (s : Store) (organization : Option String) (start : String) :
    Nat → String → Prop
  | here : LinkedAbove s organization start 0 start
  | up {n id role parent} : RolePath s organization n start id → s.role? id = some role →
      role.parent = some parent → LinkedAbove s organization start (n + 1) parent

variable {s : Store} {organization : Option String}

lemma role?_id {id : String} {role : Role} (h : s.role? id = some role) : role.id = id :=
  Table.key_of_get? h

lemma RolePath.usable {n : Nat} {start id : String} (h : s.RolePath organization n start id) :
    ∃ role, s.Usable organization id role := by
  cases h with
  | here hu => exact ⟨_, hu⟩
  | up _ _ _ hu => exact ⟨_, hu⟩

lemma RolePath.usable_start {n : Nat} {start id : String}
    (h : s.RolePath organization n start id) : ∃ role, s.Usable organization start role := by
  induction h with
  | here hu => exact ⟨_, hu⟩
  | up _ _ _ _ ih => exact ih

lemma LinkedAbove.path {n : Nat} {start id : String} {role : Role}
    (h : s.LinkedAbove organization start n id) (hu : s.Usable organization id role) :
    s.RolePath organization n start id := by
  cases h with
  | here => exact .here hu
  | up hp hr hparent => exact .up hp hr hparent hu

end Store

namespace Collected

def Has (c : Collected) (id : String) (depth : Nat) : Prop :=
  ∃ r ∈ c.roles, r.role.id = id ∧ r.depth ≤ depth

def Le (c c' : Collected) : Prop :=
  ∀ {id depth}, c.Has id depth → c'.Has id depth

lemma Le.refl (c : Collected) : c.Le c := fun h => h

lemma Le.trans {a b c : Collected} (h : a.Le b) (h' : b.Le c) : a.Le c := fun x => h' (h x)

lemma Has.mono {c : Collected} {id : String} {m n : Nat} (h : c.Has id m) (hn : m ≤ n) :
    c.Has id n := by
  obtain ⟨r, hr, hi, hd⟩ := h
  exact ⟨r, hr, hi, Nat.le_trans hd hn⟩

lemma find?_some {c : Collected} {id : String} {r : EffectiveRole} (h : c.find? id = some r) :
    r ∈ c.roles ∧ r.role.id = id :=
  ⟨List.mem_of_find?_eq_some h, by simpa using List.find?_some h⟩

lemma mem_meet {c : Collected} {id : String} {via : Provenance} {depth : Nat} {r : EffectiveRole}
    (h : r ∈ (c.meet id via depth).roles) :
    ∃ old ∈ c.roles, r.role = old.role ∧
      (r.depth = old.depth ∨ old.role.id = id ∧ depth < old.depth ∧ r.depth = depth) := by
  obtain ⟨old, ho, rfl⟩ := List.mem_map.mp h
  refine ⟨old, ho, ?_⟩
  split
  · rename_i hi
    refine ⟨rfl, ?_⟩
    rcases Nat.lt_or_ge depth old.depth with hd | hd
    · exact Or.inr ⟨by simpa using hi, hd, Nat.min_eq_right (Nat.le_of_lt hd)⟩
    · exact Or.inl (Nat.min_eq_left hd)
  · exact ⟨rfl, Or.inl rfl⟩

lemma le_meet (c : Collected) (id : String) (via : Provenance) (depth : Nat) :
    c.Le (c.meet id via depth) := by
  rintro id' depth' ⟨r, hr, hi, hd⟩
  refine ⟨_, List.mem_map.mpr ⟨r, hr, rfl⟩, ?_, ?_⟩
  · split <;> exact hi
  · split
    · exact Nat.le_trans (Nat.min_le_left _ _) hd
    · exact hd

lemma has_meet {c : Collected} {id : String} {r : EffectiveRole} (hr : r ∈ c.roles)
    (hi : r.role.id = id) (via : Provenance) (depth : Nat) :
    (c.meet id via depth).Has id depth := by
  refine ⟨_, List.mem_map.mpr ⟨r, hr, rfl⟩, ?_, ?_⟩
  · split <;> exact hi
  · rw [if_pos (by simpa using hi)]
    exact Nat.min_le_right _ _

lemma mem_add {c : Collected} {role : Role} {via : Provenance} {depth : Nat} {r : EffectiveRole} :
    r ∈ (c.add role via depth).roles ↔ r ∈ c.roles ∨ r = ⟨role, [via], depth⟩ := by
  simp [add]

lemma le_add (c : Collected) (role : Role) (via : Provenance) (depth : Nat) :
    c.Le (c.add role via depth) := by
  rintro id d ⟨r, hr, h⟩
  exact ⟨r, mem_add.mpr (Or.inl hr), h⟩

variable (s : Store) (maxDepth : Nat) (organization : Option String)

def Grounded (start : String → Prop) (c : Collected) : Prop :=
  ∀ r ∈ c.roles, r.depth ≤ maxDepth ∧ s.Usable organization r.role.id r.role ∧
    ∃ a, start a ∧ s.RolePath organization r.depth a r.role.id

def Closed (c : Collected) : Prop :=
  ∀ r ∈ c.roles, r.depth < maxDepth → ∀ parent above, r.role.parent = some parent →
    s.Usable organization parent above → c.Has parent (r.depth + 1)

variable {s maxDepth organization}

lemma Closed.has_of_path {start : String → Prop} {c : Collected}
    (hc : c.Closed s maxDepth organization) (hg : c.Grounded s maxDepth organization start)
    {n : Nat} {a id : String} (h : s.RolePath organization n a id) (ha : c.Has a 0)
    (hn : n ≤ maxDepth) : c.Has id n := by
  induction h with
  | here _ => exact ha
  | @up n a id role parent above _ hr hp hu ih =>
    obtain ⟨r, hm, rfl, hd⟩ := ih ha (Nat.le_of_succ_le hn)
    obtain rfl := Option.some.inj (hr.symm.trans (hg r hm).2.1.1)
    exact (hc r hm (Nat.lt_of_le_of_lt hd hn) parent above hp hu).mono (Nat.succ_le_succ hd)

end Collected

namespace ChainWalk

variable (s : Store) (maxDepth : Nat) (organization : Option String)

inductive Step : ChainWalk → ChainWalk → Prop
  | cut {w : ChainWalk} {id via} : w.current = some (id, via) →
      (maxDepth < w.depth ∨ id ∈ w.chain) → Step w (w.stop { w.collected with truncated := true })
  | join {w : ChainWalk} {id via} {found : EffectiveRole} : w.current = some (id, via) →
      w.collected.find? id = some found → found.depth ≤ w.depth →
      Step w (w.stop (w.collected.meet id via w.depth))
  | shorten {w : ChainWalk} {id via} {found : EffectiveRole} : w.current = some (id, via) →
      w.depth ≤ maxDepth → w.collected.find? id = some found → w.depth < found.depth →
      Step w (w.climb id found.role.parent (w.collected.meet id via w.depth))
  | collect {w : ChainWalk} {id via role} : w.current = some (id, via) → w.depth ≤ maxDepth →
      s.Usable organization id role →
      Step w (w.climb id role.parent (w.collected.add role via w.depth))
  | pass {w : ChainWalk} {id via} : w.current = some (id, via) →
      (∀ role, ¬ s.Usable organization id role) → Step w (w.stop w.collected)

variable {s maxDepth organization}

lemma step_cases {w w' : ChainWalk} (h : step s maxDepth organization w = some w') :
    Step s maxDepth organization w w' := by
  rw [step] at h
  cases hc : w.current with
  | none => simp [hc] at h
  | some visit =>
    obtain ⟨id, via⟩ := visit
    simp only [hc] at h
    split at h
    · rename_i hcut
      obtain rfl := Option.some.inj h
      exact .cut hc (by simpa using hcut)
    · rename_i hcut
      simp only [Bool.or_eq_true, decide_eq_true_eq, not_or, Nat.not_lt] at hcut
      split at h
      · rename_i found hf
        split at h
        · rename_i hd
          obtain rfl := Option.some.inj h
          exact .join hc hf hd
        · rename_i hd
          obtain rfl := Option.some.inj h
          exact .shorten hc hcut.1 hf (Nat.lt_of_not_le hd)
      · split at h
        · rename_i hr
          obtain rfl := Option.some.inj h
          refine .pass hc ?_
          rintro role ⟨hr', -⟩
          exact absurd (hr.symm.trans hr') (by simp)
        · rename_i role hr
          split at h
          · rename_i hu
            obtain rfl := Option.some.inj h
            simp only [Bool.and_eq_true] at hu
            exact .collect hc hcut.1 ⟨hr, hu⟩
          · rename_i hu
            obtain rfl := Option.some.inj h
            refine .pass hc ?_
            rintro role' ⟨hr', hu'⟩
            obtain rfl := Option.some.inj (hr.symm.trans hr')
            exact hu (by simp [hu'])

def remaining (maxDepth : Nat) (w : ChainWalk) : Nat :=
  match w.current with
  | none => 0
  | some _ => maxDepth + 1 - w.depth + 1

lemma remaining_climb_lt {w : ChainWalk} {visit : String × Provenance}
    (hc : w.current = some visit) (hd : w.depth ≤ maxDepth) (id : String)
    (parent : Option String) (c : Collected) :
    remaining maxDepth (w.climb id parent c) < remaining maxDepth w := by
  cases parent <;> simp only [remaining, climb, hc, Option.map_none, Option.map_some] <;> omega

lemma remaining_lt {w w' : ChainWalk} (h : step s maxDepth organization w = some w') :
    remaining maxDepth w' < remaining maxDepth w := by
  cases step_cases h with
  | cut hc _ => simp [remaining, stop, hc]
  | join hc _ _ => simp [remaining, stop, hc]
  | shorten hc hd _ _ => exact remaining_climb_lt hc hd _ _ _
  | collect hc hd _ => exact remaining_climb_lt hc hd _ _ _
  | pass hc _ => simp [remaining, stop, hc]

lemma current_of_step {w : ChainWalk} (h : step s maxDepth organization w = none) :
    w.current = none := by
  cases hc : w.current with
  | none => rfl
  | some visit =>
    obtain ⟨id, via⟩ := visit
    simp only [step, hc] at h
    repeat' split at h
    all_goals simp at h

structure Underway (s : Store) (maxDepth : Nat) (organization : Option String)
    (start : String → Prop) (a : String) (w : ChainWalk) : Prop where
  grounded : w.collected.Grounded s maxDepth organization start
  reached : ∀ {id via}, w.current = some (id, via) → s.LinkedAbove organization a w.depth id
  closed : ∀ r ∈ w.collected.roles, r.depth < maxDepth → ∀ parent above,
    r.role.parent = some parent → s.Usable organization parent above →
    w.collected.Has parent (r.depth + 1) ∨
      r.depth + 1 = w.depth ∧ ∃ via, w.current = some (parent, via)
  nearer : ∀ id ∈ w.chain, ∃ depth < w.depth, w.collected.Has id depth
  begun : ∀ role, s.Usable organization a role →
    w.collected.Has a 0 ∨ w.depth = 0 ∧ ∃ via, w.current = some (a, via)

namespace Underway

variable {start : String → Prop} {a id : String} {via : Provenance} {w : ChainWalk}
  {c : Collected}

lemma path (h : Underway s maxDepth organization start a w) (hc : w.current = some (id, via))
    {role : Role} (hu : s.Usable organization id role) : s.RolePath organization w.depth a id :=
  (h.reached hc).path hu

lemma grounded_meet (h : Underway s maxDepth organization start a w) (ha : start a)
    (hc : w.current = some (id, via)) :
    (w.collected.meet id via w.depth).Grounded s maxDepth organization start := by
  intro r hr
  obtain ⟨old, ho, hrole, hd⟩ := Collected.mem_meet hr
  obtain ⟨hmax, hu, hpath⟩ := h.grounded old ho
  rcases hd with hd | ⟨hid, hlt, hd⟩
  · rw [hrole, hd]
    exact ⟨hmax, hu, hpath⟩
  · rw [hrole, hd]
    refine ⟨Nat.le_trans (Nat.le_of_lt hlt) hmax, hu, a, ha, ?_⟩
    rw [hid] at hu ⊢
    exact h.path hc hu

lemma stop (h : Underway s maxDepth organization start a w) (hc : w.current = some (id, via))
    (hg : c.Grounded s maxDepth organization start) (hle : w.collected.Le c)
    (hold : ∀ r ∈ c.roles, ∃ old ∈ w.collected.roles, r.role = old.role ∧ old.depth ≤ r.depth)
    (hid : ∀ role, s.Usable organization id role → w.depth ≤ maxDepth → c.Has id w.depth) :
    Underway s maxDepth organization start a (w.stop c) where
  grounded := hg
  reached := by simp [ChainWalk.stop]
  closed r hr hd parent above hp hu := by
    obtain ⟨old, ho, hrole, hdepth⟩ := hold r hr
    rw [hrole] at hp
    apply Or.inl
    rcases h.closed old ho (Nat.lt_of_le_of_lt hdepth hd) parent above hp hu with
      hh | ⟨hw, via', hc'⟩
    · exact (hle hh).mono (Nat.succ_le_succ hdepth)
    · obtain rfl : id = parent := by simpa [hc] using congrArg (Option.map Prod.fst) hc'
      exact (hid above hu (by omega)).mono (by omega)
  nearer id' hm := by
    obtain ⟨depth, hd, hh⟩ := h.nearer id' hm
    exact ⟨depth, hd, hle hh⟩
  begun role hu := by
    rcases h.begun role hu with hh | ⟨hw, via', hc'⟩
    · exact Or.inl (hle hh)
    · obtain rfl : id = a := by simpa [hc] using congrArg (Option.map Prod.fst) hc'
      exact Or.inl (hw ▸ hid role hu (by omega))

lemma climb (h : Underway s maxDepth organization start a w) (hc : w.current = some (id, via))
    {role : Role} (hu : s.Usable organization id role)
    (hg : c.Grounded s maxDepth organization start) (hle : w.collected.Le c)
    (hold : ∀ r ∈ c.roles,
      (∃ old ∈ w.collected.roles, r.role = old.role ∧ old.depth ≤ r.depth) ∨
        r.role = role ∧ r.depth = w.depth)
    (hid : c.Has id w.depth) :
    Underway s maxDepth organization start a (w.climb id role.parent c) where
  grounded := hg
  reached {p via'} hcur := by
    obtain ⟨p', hp', heq⟩ := Option.map_eq_some_iff.mp hcur
    obtain ⟨rfl, -⟩ := Prod.mk.inj heq
    exact .up (h.path hc hu) hu.1 hp'
  closed r hr hd parent above hp hu' := by
    rcases hold r hr with ⟨old, ho, hrole, hdepth⟩ | ⟨hrole, hdepth⟩
    · rw [hrole] at hp
      apply Or.inl
      rcases h.closed old ho (Nat.lt_of_le_of_lt hdepth hd) parent above hp hu' with
        hh | ⟨hw, via', hc'⟩
      · exact (hle hh).mono (Nat.succ_le_succ hdepth)
      · obtain rfl : id = parent := by simpa [hc] using congrArg (Option.map Prod.fst) hc'
        exact hid.mono (by omega)
    · refine Or.inr ⟨by simp [ChainWalk.climb, hdepth], .viaParent id, ?_⟩
      rw [hrole] at hp
      simp [ChainWalk.climb, hp]
  nearer id' hm := by
    rcases List.mem_cons.mp hm with rfl | hm
    · exact ⟨w.depth, Nat.lt_succ_self _, hid⟩
    · obtain ⟨depth, hd, hh⟩ := h.nearer id' hm
      exact ⟨depth, Nat.lt_succ_of_lt hd, hle hh⟩
  begun role' hu' := by
    rcases h.begun role' hu' with hh | ⟨hw, via', hc'⟩
    · exact Or.inl (hle hh)
    · obtain rfl : id = a := by simpa [hc] using congrArg (Option.map Prod.fst) hc'
      exact Or.inl (hw ▸ hid)

lemma role_eq (h : Underway s maxDepth organization start a w) {r r' : EffectiveRole}
    (hr : r ∈ w.collected.roles) (hr' : r' ∈ w.collected.roles) (hi : r.role.id = r'.role.id) :
    r.role = r'.role := by
  have hu := (h.grounded r hr).2.1.1
  rw [hi] at hu
  exact Option.some.inj (hu.symm.trans (h.grounded r' hr').2.1.1)

lemma next (h : Underway s maxDepth organization start a w) (ha : start a) {w' : ChainWalk}
    (hs : step s maxDepth organization w = some w') :
    Underway s maxDepth organization start a w' := by
  cases step_cases hs with
  | @cut id via hc hcut =>
    refine h.stop hc h.grounded (Collected.Le.refl _) (fun r hr => ⟨r, hr, rfl, Nat.le_refl _⟩) ?_
    intro role _ hd
    rcases hcut with hlt | hm
    · omega
    · obtain ⟨depth, hlt, hh⟩ := h.nearer id hm
      exact hh.mono (Nat.le_of_lt hlt)
  | @join id via found hc hf hd =>
    obtain ⟨hm, hi⟩ := Collected.find?_some hf
    refine h.stop hc (h.grounded_meet ha hc) (Collected.le_meet _ _ _ _) ?_
      (fun _ _ _ => Collected.has_meet hm hi via w.depth)
    intro r hr
    obtain ⟨old, ho, hrole, hdepth | ⟨hid, -, hdepth⟩⟩ := Collected.mem_meet hr
    · exact ⟨old, ho, hrole, Nat.le_of_eq hdepth.symm⟩
    · exact ⟨found, hm, hrole.trans (h.role_eq ho hm (hid.trans hi.symm)), hdepth ▸ hd⟩
  | @shorten id via found hc hmax hf hd =>
    obtain ⟨hm, hi⟩ := Collected.find?_some hf
    have hu := (h.grounded found hm).2.1
    rw [hi] at hu
    refine h.climb hc hu (h.grounded_meet ha hc) (Collected.le_meet _ _ _ _) ?_
      (Collected.has_meet hm hi via w.depth)
    intro r hr
    obtain ⟨old, ho, hrole, hdepth | ⟨hid, -, hdepth⟩⟩ := Collected.mem_meet hr
    · exact Or.inl ⟨old, ho, hrole, Nat.le_of_eq hdepth.symm⟩
    · exact Or.inr ⟨hrole.trans (h.role_eq ho hm (hid.trans hi.symm)), hdepth⟩
  | @collect id via role hc hmax hu =>
    have hi := Store.role?_id hu.1
    refine h.climb hc hu ?_ (Collected.le_add _ _ _ _) ?_
      ⟨_, Collected.mem_add.mpr (Or.inr rfl), hi, Nat.le_refl _⟩
    · intro r hr
      rcases Collected.mem_add.mp hr with hr | rfl
      · exact h.grounded r hr
      · refine ⟨hmax, ?_, a, ha, ?_⟩
        · simpa [hi] using hu
        · simpa [hi] using h.path hc hu
    · intro r hr
      rcases Collected.mem_add.mp hr with hr | rfl
      · exact Or.inl ⟨r, hr, rfl, Nat.le_refl _⟩
      · exact Or.inr ⟨rfl, rfl⟩
  | @pass id via hc hnone =>
    exact h.stop hc h.grounded (Collected.Le.refl _) (fun r hr => ⟨r, hr, rfl, Nat.le_refl _⟩)
      (fun role hu _ => absurd hu (hnone role))

end Underway

variable {start : String → Prop} {a : String} {c : Collected} {via : Provenance}

lemma underway_start (hg : c.Grounded s maxDepth organization start)
    (hc : c.Closed s maxDepth organization) :
    Underway s maxDepth organization start a ⟨some (a, via), 0, [], c⟩ where
  grounded := hg
  reached h := by
    obtain ⟨rfl, -⟩ := Prod.mk.inj (Option.some.inj h)
    exact .here
  closed r hr hd parent above hp hu := Or.inl (hc r hr hd parent above hp hu)
  nearer := by simp
  begun role _ := Or.inr ⟨rfl, via, rfl⟩

lemma underway_run (hg : c.Grounded s maxDepth organization start)
    (hc : c.Closed s maxDepth organization) (ha : start a) (via : Provenance) :
    Underway s maxDepth organization start a
      (Walk.run (step s maxDepth organization) (maxDepth + 2) ⟨some (a, via), 0, [], c⟩) :=
  Walk.run_preserves (P := Underway s maxDepth organization start a)
    (fun hs h => h.next ha hs) _ (underway_start hg hc)

lemma run_current (c : Collected) (a : String) (via : Provenance) :
    (Walk.run (step s maxDepth organization) (maxDepth + 2)
      ⟨some (a, via), 0, [], c⟩).current = none :=
  current_of_step (Walk.run_ends (Walk.endsWithin_of_measure (remaining maxDepth) remaining_lt
    (by simp [remaining])))

lemma le_of_step {w w' : ChainWalk} (h : step s maxDepth organization w = some w') :
    w.collected.Le w'.collected := by
  cases step_cases h with
  | cut => exact Collected.Le.refl _
  | join => exact Collected.le_meet _ _ _ _
  | shorten => exact Collected.le_meet _ _ _ _
  | collect => exact Collected.le_add _ _ _ _
  | pass => exact Collected.Le.refl _

lemma validUntil_of_step {w w' : ChainWalk} (h : step s maxDepth organization w = some w') :
    w'.collected.validUntil = w.collected.validUntil := by
  cases step_cases h <;> rfl

end ChainWalk

namespace Collected

variable {s : Store} {maxDepth : Nat} {organization : Option String} {start : String → Prop}
  {c : Collected} {a : String} {via : Provenance}

lemma grounded_withChain (hg : c.Grounded s maxDepth organization start)
    (hc : c.Closed s maxDepth organization) (ha : start a) :
    (c.withChain s maxDepth organization a via).Grounded s maxDepth organization start :=
  (ChainWalk.underway_run hg hc ha via).grounded

lemma closed_withChain (hg : c.Grounded s maxDepth organization start)
    (hc : c.Closed s maxDepth organization) (ha : start a) :
    (c.withChain s maxDepth organization a via).Closed s maxDepth organization := by
  intro r hr hd parent above hp hu
  rcases (ChainWalk.underway_run hg hc ha via).closed r hr hd parent above hp hu with
    hh | ⟨-, via', hcur⟩
  · exact hh
  · exact absurd ((ChainWalk.run_current c a via).symm.trans hcur) (by simp)

lemma has_withChain (hg : c.Grounded s maxDepth organization start)
    (hc : c.Closed s maxDepth organization) (ha : start a) {role : Role}
    (hu : s.Usable organization a role) : (c.withChain s maxDepth organization a via).Has a 0 := by
  rcases (ChainWalk.underway_run hg hc ha via).begun role hu with hh | ⟨-, via', hcur⟩
  · exact hh
  · exact absurd ((ChainWalk.run_current c a via).symm.trans hcur) (by simp)

lemma le_withChain (c : Collected) (a : String) (via : Provenance) :
    c.Le (c.withChain s maxDepth organization a via) :=
  Walk.run_preserves (P := fun w => c.Le w.collected)
    (fun hs h => h.trans (ChainWalk.le_of_step hs)) _ (Le.refl c)

lemma validUntil_withChain (c : Collected) (a : String) (via : Provenance) :
    (c.withChain s maxDepth organization a via).validUntil = c.validUntil :=
  Walk.run_preserves (P := fun w => w.collected.validUntil = c.validUntil)
    (fun hs h => (ChainWalk.validUntil_of_step hs).trans h) _ rfl

end Collected

end AccessControl
