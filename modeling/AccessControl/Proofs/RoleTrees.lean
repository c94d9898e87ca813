import AccessControl.Proofs.RoleGraphs

/-! The forest that is shown of the roles. A role stands in it once if the way up from it comes to a
role without a parent, and not at all if that way goes round; the number of roles is a bound on the
levels that cuts nothing off. -/

namespace AccessControl

namespace RoleTree

mutual

def roles : RoleTree → List Role
  | node role children => role :: rolesOf children

def rolesOf : List RoleTree → List Role
  | [] => []
  | t :: ts => t.roles ++ rolesOf ts

end

inductive Holds (role : Role) (children : List RoleTree) : RoleTree → Prop
  | top : Holds role children (node role children)
  | deeper {r : Role} {ts : List RoleTree} {t : RoleTree} : t ∈ ts → Holds role children t →
      Holds role children (node r ts)

lemma rolesOf_eq (ts : List RoleTree) : rolesOf ts = ts.flatMap roles := by
  induction ts with
  | nil => rfl
  | cons t ts ih => rw [rolesOf, ih, List.flatMap_cons]

lemma pairwise_sorted {α : Type} (name : α → String) (l : List α) :
    (l.mergeSort fun a b => name a ≤ name b).Pairwise fun a b => name a ≤ name b := by
  refine (List.pairwise_mergeSort ?_ ?_ l).imp of_decide_eq_true
  · intro a b c hab hbc
    exact decide_eq_true (String.le_trans (of_decide_eq_true hab) (of_decide_eq_true hbc))
  · intro a b
    simpa using String.le_total (name a) (name b)

end RoleTree

namespace RoleGraph

open RoleTree (rolesOf Holds)

variable {g : RoleGraph} {a b x y : String} {r role : Role} {levels m n : Nat}

lemma contains_of_mem (h : r ∈ g.roles.rows) : g.contains r.id = true :=
  contains_iff.mpr (List.mem_map.mpr ⟨r, h, rfl⟩)

lemma eq_of_id (hr : r ∈ g.roles.rows) (h : role ∈ g.roles.rows) (hid : r.id = role.id) :
    r = role :=
  List.inj_on_of_nodup_map g.roles.nodup_keys hr h hid

lemma above_start (h : g.parent? x = some y) (n : Nat) : g.above (n + 1) x = g.above n y := by
  rw [Nat.add_comm, above_add, show g.above 1 x = some y from h]
  rfl

lemma above_succ_eq_some (hy : g.contains y = true) :
    g.above (n + 1) x = some y ↔ ∃ c ∈ g.children y, g.above n x = some c.id := by
  rw [above, Option.bind_eq_some_iff]
  simp only [parent?_eq_some, hy, true_and]
  constructor
  · rintro ⟨z, hz, c, hc, rfl⟩
    exact ⟨c, hc, hz⟩
  · rintro ⟨c, hc, hz⟩
    exact ⟨c.id, hz, c, hc, rfl⟩

def Leaves (g : RoleGraph) (role : String) : Prop :=
  ∀ n, g.above (n + 1) role ≠ some role

lemma leaves_of_top (h : g.parent? x = none) : g.Leaves x := fun n hround => by
  rw [above_eq_none (show g.above 1 x = none from h) (Nat.le_add_left 1 n)] at hround
  cases hround

lemma Leaves.child (h : g.Leaves y) (hp : g.parent? x = some y) : g.Leaves x := by
  intro n hround
  rw [above_start hp] at hround
  refine h n ?_
  rw [above, hround]
  exact hp

lemma Leaves.eq_of_parent (ha : g.Leaves a) (hb : g.Leaves b) (hp : g.parent? a = g.parent? b)
    (hm : g.above m x = some a) (hn : g.above n x = some b) : a = b := by
  wlog hle : m ≤ n
  · exact (this hb ha hp.symm hn hm (Nat.le_of_not_le hle)).symm
  obtain ⟨z, hz, hrest⟩ := exists_above hn hle
  obtain rfl := Option.some.inj (hm.symm.trans hz)
  cases hk : n - m with
  | zero =>
    rw [hk] at hrest
    exact Option.some.inj hrest
  | succ k =>
    refine absurd ?_ (hb k)
    rw [Nat.add_comm, above_add, show g.above 1 b = g.above 1 a from hp.symm, ← above_add,
      Nat.add_comm, ← hk]
    exact hrest

lemma role_build (g : RoleGraph) (levels : Nat) (r : Role) : (g.build levels r).role = r := by
  cases levels <;> rfl

lemma roles_build_zero (g : RoleGraph) (r : Role) : (g.build 0 r).roles = [r] := rfl

lemma roles_build_perm (g : RoleGraph) (levels : Nat) (r : Role) :
    (g.build (levels + 1) r).roles.Perm
      (r :: (g.children r.id).flatMap fun c => (g.build levels c).roles) := by
  have hsorted := ((List.mergeSort_perm ((g.children r.id).map (g.build levels))
    fun a b => a.role.name ≤ b.role.name).flatMap_right RoleTree.roles).cons r
  rw [List.flatMap_map] at hsorted
  rw [build, RoleTree.roles, RoleTree.rolesOf_eq]
  exact hsorted

lemma mem_build (hr : r ∈ g.roles.rows) : role ∈ (g.build levels r).roles ↔
    role ∈ g.roles.rows ∧ ∃ n ≤ levels, g.above n role.id = some r.id := by
  have hself : ∀ {r}, r ∈ g.roles.rows →
      (role = r ↔ role ∈ g.roles.rows ∧ g.above 0 role.id = some r.id) := by
    intro r hr
    constructor
    · rintro rfl
      exact ⟨hr, rfl⟩
    · rintro ⟨hrole, hid⟩
      exact eq_of_id hrole hr (Option.some.inj hid)
  induction levels generalizing r with
  | zero => simp [roles_build_zero, hself hr]
  | succ levels ih =>
    rw [(roles_build_perm g levels r).mem_iff, List.mem_cons, List.mem_flatMap, hself hr]
    constructor
    · rintro (⟨hrole, hid⟩ | ⟨c, hc, hrole⟩)
      · exact ⟨hrole, 0, Nat.zero_le _, hid⟩
      · obtain ⟨hrole, n, hn, hway⟩ := (ih (mem_children.mp hc).1).mp hrole
        exact ⟨hrole, n + 1, Nat.succ_le_succ hn,
          (above_succ_eq_some (contains_of_mem hr)).mpr ⟨c, hc, hway⟩⟩
    · rintro ⟨hrole, n, hn, hway⟩
      cases n with
      | zero => exact Or.inl ⟨hrole, hway⟩
      | succ n =>
        obtain ⟨c, hc, hway⟩ := (above_succ_eq_some (contains_of_mem hr)).mp hway
        exact Or.inr ⟨c, hc, (ih (mem_children.mp hc).1).mpr
          ⟨hrole, n, Nat.le_of_succ_le_succ hn, hway⟩⟩

lemma nodup_builds {rs : List Role} (hrs : rs.Sublist g.roles.rows)
    (hp : ∀ r ∈ rs, ∀ r' ∈ rs, g.parent? r.id = g.parent? r'.id) (hround : ∀ r ∈ rs, g.Leaves r.id)
    (heach : ∀ r ∈ rs, (g.build levels r).roles.Nodup) :
    (rs.flatMap fun r => (g.build levels r).roles).Nodup := by
  refine List.nodup_flatMap.mpr ⟨heach, ?_⟩
  refine (g.roles.increasing.sublist hrs).imp_of_mem fun {r r'} hr hr' hlt => ?_
  intro role hm hm'
  obtain ⟨-, m, -, hm⟩ := (mem_build (hrs.subset hr)).mp hm
  obtain ⟨-, n, -, hn⟩ := (mem_build (hrs.subset hr')).mp hm'
  have hid : r.id = r'.id := (hround r hr).eq_of_parent (hround r' hr') (hp r hr r' hr') hm hn
  rw [show Keyed.key r = Keyed.key r' from hid] at hlt
  exact String.lt_irrefl _ hlt

lemma parent?_of_child {c : Role} (hr : r ∈ g.roles.rows) (hc : c ∈ g.children r.id) :
    g.parent? c.id = some r.id :=
  parent?_eq_some.mpr ⟨contains_of_mem hr, c, hc, rfl⟩

lemma nodup_build (hr : r ∈ g.roles.rows) (hround : g.Leaves r.id) :
    (g.build levels r).roles.Nodup := by
  induction levels generalizing r with
  | zero => exact List.nodup_singleton r
  | succ levels ih =>
    have hparent : ∀ c ∈ g.children r.id, g.parent? c.id = some r.id := fun c hc =>
      parent?_of_child hr hc
    refine (roles_build_perm g levels r).nodup_iff.mpr (List.nodup_cons.mpr ⟨fun hm => ?_, ?_⟩)
    · obtain ⟨c, hc, hm⟩ := List.mem_flatMap.mp hm
      obtain ⟨-, n, -, hway⟩ := (mem_build (mem_children.mp hc).1).mp hm
      exact hround n ((above_succ_eq_some (contains_of_mem hr)).mpr ⟨c, hc, hway⟩)
    · refine nodup_builds List.filter_sublist ?_ ?_ fun c hc => ?_
      · exact fun c hc c' hc' => (hparent c hc).trans (hparent c' hc').symm
      · exact fun c hc => hround.child (hparent c hc)
      · exact ih (mem_children.mp hc).1 (hround.child (hparent c hc))

lemma holds_build {children : List RoleTree} (h : Holds role children (g.build levels r)) :
    (∀ c ∈ children, c.role.parent = some role.id) ∧
      children.Pairwise fun a b => a.role.name ≤ b.role.name := by
  induction levels generalizing r with
  | zero =>
    cases h with
    | top => exact ⟨by simp, .nil⟩
    | deeper ht _ => cases ht
  | succ levels ih =>
    cases h with
    | top =>
      refine ⟨fun c hc => ?_, RoleTree.pairwise_sorted (fun t : RoleTree => t.role.name) _⟩
      obtain ⟨x, hx, rfl⟩ := List.mem_map.mp (List.mem_mergeSort.mp hc)
      rw [role_build]
      exact (mem_children.mp hx).2
    | deeper ht hin =>
      obtain ⟨x, -, rfl⟩ := List.mem_map.mp (List.mem_mergeSort.mp ht)
      exact ih hin

def roots (g : RoleGraph) : List Role :=
  g.roles.rows.filter fun r => (g.parent? r.id).isNone

lemma mem_roots : r ∈ g.roots ↔ r ∈ g.roles.rows ∧ g.parent? r.id = none := by
  simp [roots]

lemma roles_tree_perm (g : RoleGraph) :
    (rolesOf g.tree).Perm (g.roots.flatMap fun r => (g.build g.size r).roles) := by
  rw [RoleTree.rolesOf_eq, tree, List.flatMap_map]
  exact (List.mergeSort_perm _ _).flatMap_right _

lemma nodup_tree (g : RoleGraph) : (rolesOf g.tree).Nodup := by
  refine (roles_tree_perm g).nodup_iff.mpr (nodup_builds List.filter_sublist ?_ ?_ fun r hr => ?_)
  · exact fun r hr r' hr' => (mem_roots.mp hr).2.trans (mem_roots.mp hr').2.symm
  · exact fun r hr => leaves_of_top (mem_roots.mp hr).2
  · exact nodup_build (mem_roots.mp hr).1 (leaves_of_top (mem_roots.mp hr).2)

lemma mem_tree : role ∈ rolesOf g.tree ↔ role ∈ g.roles.rows ∧
    ∃ n top, g.above n role.id = some top ∧ g.parent? top = none := by
  rw [(roles_tree_perm g).mem_iff, List.mem_flatMap]
  constructor
  · rintro ⟨r, hr, hrole⟩
    obtain ⟨hr, htop⟩ := mem_roots.mp hr
    obtain ⟨hrole, n, -, hway⟩ := (mem_build hr).mp hrole
    exact ⟨hrole, n, r.id, hway, htop⟩
  · rintro ⟨hrole, n, top, hway, htop⟩
    have hc : g.contains top = true := by
      cases n with
      | zero => exact Option.some.inj hway ▸ contains_of_mem hrole
      | succ n => exact contains_of_above hway
    obtain ⟨r, hr, rfl⟩ := List.mem_map.mp (contains_iff.mp hc)
    have hend : g.above (n + 1) role.id = none := by
      rw [above, hway]
      exact htop
    exact ⟨r, mem_roots.mpr ⟨hr, htop⟩,
      (mem_build hr).mpr ⟨hrole, n, le_size_of_above_eq_none hway hend, hway⟩⟩

lemma exists_of_mem_tree {t : RoleTree} (h : t ∈ g.tree) :
    ∃ r ∈ g.roots, t = g.build g.size r := by
  obtain ⟨r, hr, rfl⟩ := List.mem_map.mp h
  exact ⟨r, List.mem_mergeSort.mp hr, rfl⟩

inductive Rooted (roles : List Role) : Role → Prop
  | top {role : Role} : role ∈ roles → role.isLive = true →
      (∀ p ∈ roles, p.isLive = true → role.parent ≠ some p.id) → Rooted roles role
  | under {role parent : Role} : role ∈ roles → role.isLive = true → Rooted roles parent →
      role.parent = some parent.id → Rooted roles role

lemma mem_ofRoles {roles : List Role} (h : (roles.map (·.id)).Nodup) :
    role ∈ (ofRoles roles).roles.rows ↔ role ∈ roles ∧ role.isLive = true := by
  rw [ofRoles, Table.mem_ofList ((List.filter_sublist.map _).nodup h), List.mem_filter]

lemma parent?_of_mem (hr : r ∈ g.roles.rows) : g.parent? r.id = r.parent.filter g.contains := by
  rw [parent?, show g.roles.get? r.id = some r from Table.get?_of_mem hr]
  rfl

section Distinct

variable {roles : List Role} (h : (roles.map (·.id)).Nodup)
include h

lemma parent?_eq_none (hr : r ∈ (ofRoles roles).roles.rows) : (ofRoles roles).parent? r.id = none ↔
    ∀ p ∈ roles, p.isLive = true → r.parent ≠ some p.id := by
  rw [parent?_of_mem hr, Option.filter_eq_none_iff]
  simp only [contains_iff, List.mem_map, mem_ofRoles h]
  constructor
  · intro hnone p hp hlive hparent
    exact hnone p.id hparent ⟨p, ⟨hp, hlive⟩, rfl⟩
  · rintro hnone id hparent ⟨p, ⟨hp, hlive⟩, rfl⟩
    exact hnone p hp hlive hparent

lemma rooted_iff : Rooted roles role ↔ role ∈ (ofRoles roles).roles.rows ∧
    ∃ n top, (ofRoles roles).above n role.id = some top ∧ (ofRoles roles).parent? top = none := by
  constructor
  · intro hrooted
    induction hrooted with
    | @top role hrole hlive hnone =>
      have hrole := (mem_ofRoles h).mpr ⟨hrole, hlive⟩
      exact ⟨hrole, 0, role.id, rfl, (parent?_eq_none h hrole).mpr hnone⟩
    | @under role parent hrole hlive _ hparent ih =>
      obtain ⟨hstored, n, top, hway, htop⟩ := ih
      have hrole := (mem_ofRoles h).mpr ⟨hrole, hlive⟩
      have hlink : (ofRoles roles).parent? role.id = some parent.id :=
        parent?_of_child hstored (mem_children.mpr ⟨hrole, hparent⟩)
      exact ⟨hrole, n + 1, top, (above_start hlink n).trans hway, htop⟩
  · rintro ⟨hrole, n, top, hway, htop⟩
    induction n generalizing role with
    | zero =>
      obtain rfl := Option.some.inj hway
      obtain ⟨hlisted, hlive⟩ := (mem_ofRoles h).mp hrole
      exact .top hlisted hlive ((parent?_eq_none h hrole).mp htop)
    | succ n ih =>
      obtain ⟨p, hp, -⟩ := exists_above hway (Nat.succ_le_succ (Nat.zero_le n))
      have hlink : (ofRoles roles).parent? role.id = some p := hp
      obtain ⟨hc, c, hc', hid⟩ := parent?_eq_some.mp hlink
      obtain ⟨parent, hparent, rfl⟩ := List.mem_map.mp (contains_iff.mp hc)
      obtain ⟨hstored, hup⟩ := mem_children.mp hc'
      obtain rfl := eq_of_id hstored hrole hid
      obtain ⟨hlisted, hlive⟩ := (mem_ofRoles h).mp hrole
      exact .under hlisted hlive (ih hparent ((above_start hlink n).symm.trans hway)) hup

lemma rooted_iff_depthOf (hrole : role ∈ roles) :
    Rooted roles role ↔ ((ofRoles roles).depthOf role.id).isOk = true := by
  have hend : ∀ n top, (ofRoles roles).above n role.id = some top →
      ((ofRoles roles).above (n + 1) role.id = none ↔ (ofRoles roles).parent? top = none) := by
    intro n top hway
    rw [above, hway]
    rfl
  rw [rooted_iff h]
  constructor
  · rintro ⟨hstored, n, top, hway, htop⟩
    rw [depthOf_eq_ok.mpr ⟨contains_of_mem hstored, ⟨top, hway⟩, (hend n top hway).mpr htop⟩]
    rfl
  · intro hok
    cases hd : (ofRoles roles).depthOf role.id with
    | error fault => simp [hd, Except.isOk, Except.toBool] at hok
    | ok d =>
      obtain ⟨hc, ⟨top, hway⟩, hnone⟩ := depthOf_eq_ok.mp hd
      obtain ⟨r, hr, hid⟩ := List.mem_map.mp (contains_iff.mp hc)
      obtain rfl : r = role :=
        List.inj_on_of_nodup_map h ((mem_ofRoles h).mp hr).1 hrole hid
      exact ⟨hr, d, top, hway, (hend d top hway).mp hnone⟩

/-- The forest holds each live role once whose way up comes to an end, and no other role. Below its
trees stands no role that has a live parent, every role stands below its own parent, and on every
level the roles are ordered by name. -/
theorem tree_exact :
    ((rolesOf (ofRoles roles).tree).Nodup ∧
      ∀ role, role ∈ rolesOf (ofRoles roles).tree ↔ Rooted roles role) ∧
    (∀ t ∈ (ofRoles roles).tree, ∀ p ∈ roles, p.isLive = true → t.role.parent ≠ some p.id) ∧
    ((ofRoles roles).tree.Pairwise fun a b => a.role.name ≤ b.role.name) ∧
    ∀ t ∈ (ofRoles roles).tree, ∀ role children, t.Holds role children →
      (∀ c ∈ children, c.role.parent = some role.id) ∧
        children.Pairwise fun a b => a.role.name ≤ b.role.name := by
  refine ⟨⟨nodup_tree _, fun role => mem_tree.trans (rooted_iff h).symm⟩, fun t ht => ?_, ?_,
    fun t ht role children hin => ?_⟩
  · obtain ⟨r, hr, rfl⟩ := exists_of_mem_tree ht
    obtain ⟨hr, htop⟩ := mem_roots.mp hr
    rw [role_build]
    exact (parent?_eq_none h hr).mp htop
  · refine List.pairwise_map.mpr ((RoleTree.pairwise_sorted Role.name _).imp fun {a b} hab => ?_)
    rwa [role_build, role_build]
  · obtain ⟨r, -, rfl⟩ := exists_of_mem_tree ht
    exact holds_build hin

end Distinct

def thicket : List Role :=
  [{ Role.global "a" "Warden" with parent := some "missing" },
    { Role.global "b" "Keeper" with parent := some "a" },
    { Role.global "c" "Guide" with parent := some "a" },
    { Role.global "d" "Archivist" with parent := some "e" },
    { Role.global "e" "Curator" with isActive := false },
    { Role.global "f" "Left" with parent := some "g" },
    { Role.global "g" "Right" with parent := some "f" },
    { Role.global "h" "Lower" with parent := some "f" },
    { Role.global "i" "Helper" with parent := some "b" }]

theorem tree_exact_thicket :
    (thicket.map (·.id)).Nodup ∧ (rolesOf (ofRoles thicket).tree).Nodup ∧
      ∀ role ∈ thicket, role ∈ rolesOf (ofRoles thicket).tree ↔
        role.id ∈ ["a", "b", "c", "d", "i"] := by
  have hids : (thicket.map (·.id)).Nodup := by decide +kernel
  have hdepths : ∀ role ∈ thicket, ((ofRoles thicket).depthOf role.id).isOk = true ↔
      role.id ∈ ["a", "b", "c", "d", "i"] := by decide +kernel
  obtain ⟨⟨hnodup, hmem⟩, -⟩ := tree_exact hids
  refine ⟨hids, hnodup, fun role hrole => ?_⟩
  rw [hmem, rooted_iff_depthOf hids hrole, hdepths role hrole]

end RoleGraph

end AccessControl
