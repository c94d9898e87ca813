import AccessControl.Proofs.Dangling
import AccessControl.Proofs.RoleGraphs
import AccessControl.Proofs.Writes

/-! The live roles of a store form a forest of bounded depth. A role that is written leaves it one,
as long as its parent link was checked and the role did not count again after it had stopped to: the
check sees the roles that count, and none of the links of a role that does not. -/

namespace AccessControl

namespace Store

/-- No live role is above itself, and no way up from one to another is longer than the limit. -/
structure RoleForest (s : Store) (maxDepth : Nat) : Prop where
  acyclic : ∀ n id, ¬ s.RolePath none (n + 1) id id
  shallow : ∀ n a b, s.RolePath none n a b → n ≤ maxDepth

variable {s s' : Store} {maxDepth : Nat} {organization : Option String} {role : Role}
  {a b c id parent : String} {m n : Nat}

lemma RolePath.trans (h : s.RolePath organization m a b) (h' : s.RolePath organization n b c) :
    s.RolePath organization (m + n) a c := by
  induction h' with
  | here _ => exact h
  | up _ hx hp hu ih => exact .up (ih h) hx hp hu

lemma roleForest_of_shallow (h : ∀ n a b, s.RolePath none n a b → n ≤ maxDepth) :
    s.RoleForest maxDepth := by
  refine ⟨fun n id hround => ?_, h⟩
  have hlong : ∀ k, ∃ m, k ≤ m ∧ s.RolePath none m id id := by
    intro k
    induction k with
    | zero => exact ⟨n + 1, Nat.zero_le _, hround⟩
    | succ k ih =>
      obtain ⟨m, hm, hpath⟩ := ih
      exact ⟨m + (n + 1), by omega, hpath.trans hround⟩
  obtain ⟨m, hm, hpath⟩ := hlong (maxDepth + 1)
  exact Nat.not_lt.mpr (h m id id hpath) hm

lemma usable_none : s.Usable none id role ↔ s.role? id = some role ∧ role.isLive = true := by
  simp [Usable, Role.visibleTo]

def Shown (s : Store) (g : RoleGraph) : Prop :=
  ∀ id role, g.roles.get? id = some role ↔ s.Usable none id role

lemma Shown.contains {g : RoleGraph} (h : s.Shown g) :
    g.contains id = true ↔ ∃ role, s.Usable none id role := by
  rw [RoleGraph.contains, Table.contains, Option.isSome_iff_exists]
  exact exists_congr fun role => h id role

lemma Shown.rolePath_iff {g : RoleGraph} (h : s.Shown g) :
    s.RolePath none n a b ↔ g.contains a = true ∧ g.above n a = some b := by
  constructor
  · intro hpath
    induction hpath with
    | here hu => exact ⟨h.contains.mpr ⟨_, hu⟩, rfl⟩
    | @up n a id x p above hpath hx hp hu ih =>
      obtain ⟨hc, habove⟩ := ih
      obtain ⟨y, hy⟩ := hpath.usable
      obtain rfl := Option.some.inj (hx.symm.trans hy.1)
      refine ⟨hc, ?_⟩
      rw [RoleGraph.above, habove, Option.bind_some, RoleGraph.parent?, (h id x).mpr hy,
        Option.bind_some, hp, Option.filter_some, if_pos (h.contains.mpr ⟨above, hu⟩)]
  · rintro ⟨hc, habove⟩
    induction n generalizing b with
    | zero =>
      obtain rfl := Option.some.inj habove
      obtain ⟨role, hu⟩ := h.contains.mp hc
      exact .here hu
    | succ n ih =>
      obtain ⟨z, hz, hparent⟩ := Option.bind_eq_some_iff.mp habove
      obtain ⟨hfound, hcb⟩ := Option.filter_eq_some_iff.mp hparent
      obtain ⟨x, hx, hp⟩ := Option.bind_eq_some_iff.mp hfound
      obtain ⟨above, hu⟩ := h.contains.mp hcb
      exact .up (ih hz) ((h z x).mp hx).1 hp hu

lemma Shown.acyclic_iff {g : RoleGraph} (h : s.Shown g) :
    g.Acyclic ↔ ∀ n id, ¬ s.RolePath none (n + 1) id id := by
  refine forall₂_congr fun n x => not_congr ⟨fun hround => ?_, fun hpath => ?_⟩
  · exact h.rolePath_iff.mpr ⟨RoleGraph.contains_of_above hround, hround⟩
  · exact (h.rolePath_iff.mp hpath).2

lemma get?_ofRoles {t : Table Role} :
    (RoleGraph.ofRoles t.rows).roles.get? id = some role ↔
      t.get? id = some role ∧ role.isLive = true := by
  rw [RoleGraph.ofRoles, Table.get?_eq_some, Table.get?_eq_some,
    Table.rows_ofList (t.increasing.filter _), List.mem_filter, and_right_comm]

lemma shown_ofRoles (s : Store) : s.Shown (.ofRoles s.roles.rows) := fun _ _ =>
  get?_ofRoles.trans usable_none.symm

lemma ofRoles_append (rows : List Role) (role : Role) :
    RoleGraph.ofRoles (rows ++ [role]) =
      if role.isLive then ⟨(RoleGraph.ofRoles rows).roles.insert role⟩
      else RoleGraph.ofRoles rows := by
  simp only [RoleGraph.ofRoles, Table.ofList, List.filter_append, List.foldl_append]
  cases h : role.isLive <;> simp [h]

lemma shown_append (hnew : s.role? role.id = none) :
    ({ s with roles := s.roles.insert role } : Store).Shown
      (.ofRoles (s.roles.rows ++ [role])) := by
  intro id x
  rw [usable_none, role?_insert, ofRoles_append]
  split
  · rename_i hlive
    rw [show ((RoleGraph.ofRoles s.roles.rows).roles.insert role).get? id =
      if role.id = id then some role else (RoleGraph.ofRoles s.roles.rows).roles.get? id from
        Table.get?_insert _ _ _]
    split
    · exact ⟨fun hx => ⟨hx, Option.some.inj hx ▸ hlive⟩, And.left⟩
    · exact get?_ofRoles
  · rename_i hdead
    rw [get?_ofRoles]
    split
    · rename_i hid
      subst hid
      rw [show s.roles.get? role.id = none from hnew]
      constructor
      · rintro ⟨hx, -⟩
        cases hx
      · rintro ⟨hx, hlive⟩
        exact absurd (Option.some.inj hx ▸ hlive) hdead
    · exact Iff.rfl

def hosting (s : Store) (role : Role) : Store :=
  match s.role? role.id with
  | some _ => s
  | none => { s with roles := s.roles.insert { role with parent := none } }

lemma shown_hosting (s : Store) (role : Role) :
    (s.hosting role).Shown (.ofRoles (Admin.rolesWith s.roles.rows role)) := by
  rw [hosting, Admin.rolesWith]
  cases h : s.role? role.id with
  | some old =>
    have hid : (old.id == role.id) = true := beq_iff_eq.mpr (role?_id h)
    rw [if_pos (List.any_eq_true.mpr ⟨old, Table.mem_of_get? h, hid⟩)]
    exact shown_ofRoles s
  | none =>
    have hnew : ¬ s.roles.rows.any (·.id == role.id) = true := by
      rw [List.any_eq_true]
      exact fun ⟨old, hold, hid⟩ => List.find?_eq_none.mp h old hold hid
    rw [if_neg hnew]
    exact shown_append h

lemma hosting_of_stored {old : Role} (h : s.role? role.id = some old) : s.hosting role = s := by
  rw [hosting, h]

lemma hosting_of_new (h : s.role? role.id = none) :
    s.hosting role = { s with roles := s.roles.insert { role with parent := none } } := by
  rw [hosting, h]

lemma role?_hosting {x : Role} (hx : s.role? id = some x) (role : Role) :
    (s.hosting role).role? id = some x := by
  cases h : s.role? role.id with
  | some old => rw [hosting_of_stored h, hx]
  | none =>
    have hne : ¬ role.id = id := by
      rintro rfl
      cases h.symm.trans hx
    rw [hosting_of_new h, role?_insert, if_neg hne, hx]

structure Admits (s : Store) (maxDepth : Nat) (id parent : String) : Prop where
  live : ∃ above, s.Usable none parent above
  opens : ∀ n, ¬ s.RolePath none n parent id
  short : ∀ m n a b, s.RolePath none m a id → s.RolePath none n parent b → m + 1 + n ≤ maxDepth

lemma checkEdgeIn_ok {stored : List Role}
    (h : Admin.checkEdgeIn stored maxDepth role parent = .ok ()) :
    (∃ r ∈ stored, r.id = parent ∧ r.isLive = true) ∧
      (RoleGraph.ofRoles (Admin.rolesWith stored role)).wouldCreateCycle role.id parent = false ∧
      ∃ depth, (RoleGraph.ofRoles (Admin.rolesWith stored role)).depthOf parent = .ok depth ∧
        depth + 1 + (RoleGraph.ofRoles (Admin.rolesWith stored role)).heightBelow role.id ≤
          maxDepth := by
  rw [Admin.checkEdgeIn] at h
  split at h
  · rename_i hlive
    simp only at h
    split at h
    · cases h
    · rename_i hcycle
      split at h
      · cases h
      · cases h
      · rename_i total hchain
        split at h
        · cases h
        · rename_i hdepth
          obtain ⟨depth, habove, htotal⟩ := Admin.bind_ok.mp hchain
          obtain rfl := Except.ok.inj htotal
          refine ⟨?_, Bool.eq_false_iff.mpr hcycle, depth, habove, Nat.le_of_not_lt hdepth⟩
          simpa using hlive
  · cases h

lemma admits_of_check (hs : (s.hosting role).RoleForest maxDepth)
    (h : Admin.checkEdgeIn s.roles.rows maxDepth role parent = .ok ()) :
    (s.hosting role).Admits maxDepth role.id parent := by
  obtain ⟨⟨above, habove, rfl, hlive⟩, hcycle, depth, hdepth, hshort⟩ := checkEdgeIn_ok h
  have hshown := shown_hosting s role
  have hacyclic := hshown.acyclic_iff.mpr hs.acyclic
  constructor
  · exact ⟨above, usable_none.mpr ⟨role?_hosting (Table.get?_of_mem habove) role, hlive⟩⟩
  · intro n hpath
    obtain ⟨-, hn⟩ := hshown.rolePath_iff.mp hpath
    exact absurd (RoleGraph.wouldCreateCycle_iff.mpr ⟨n, hn⟩) (Bool.eq_false_iff.mp hcycle)
  · intro m n a b hbelow hbeyond
    obtain ⟨-, hm⟩ := hshown.rolePath_iff.mp hbelow
    obtain ⟨-, hn⟩ := hshown.rolePath_iff.mp hbeyond
    have hheight := RoleGraph.le_heightBelow hm (hacyclic.le_size hm)
    have hdepth := RoleGraph.le_of_depthOf hdepth hn
    omega

structure Planted (s : Store) (maxDepth : Nat) : Prop where
  stored : ∀ id role parent, s.role? id = some role → role.parent = some parent →
    ∃ above, s.role? parent = some above
  shallow : ∀ n a b, s.RolePath none n a b → n ≤ maxDepth

lemma RolePath.of_hosting (hnew : s.role? role.id = none)
    (h : (s.hosting role).RolePath none n a b) (hb : role.id ≠ b) : s.RolePath none n a b := by
  rw [hosting_of_new hnew] at h
  have husable : ∀ {id x}, role.id ≠ id →
      ({ s with roles := s.roles.insert { role with parent := none } } : Store).Usable none id x →
      s.Usable none id x := by
    intro id x hne hx
    obtain ⟨hget, hlive⟩ := usable_none.mp hx
    rw [role?_insert, if_neg hne] at hget
    exact usable_none.mpr ⟨hget, hlive⟩
  induction h with
  | here hu => exact .here (husable hb hu)
  | @up n a id x p above hpath hx hp hu ih =>
    rw [role?_insert] at hx
    split at hx
    · obtain rfl := Option.some.inj hx
      cases hp
    · rename_i hne
      exact .up (ih hne) hx hp (husable hb hu)

lemma Planted.hosting (h : s.Planted maxDepth) (role : Role) :
    (s.hosting role).Planted maxDepth := by
  cases hstored : s.role? role.id with
  | some old =>
    rw [hosting_of_stored hstored]
    exact h
  | none =>
    constructor
    · intro id x p hx hp
      rw [hosting_of_new hstored, role?_insert] at hx
      split at hx
      · obtain rfl := Option.some.inj hx
        cases hp
      · obtain ⟨above, habove⟩ := h.stored id x p hx hp
        exact ⟨above, role?_hosting habove role⟩
    · intro n a b hpath
      by_cases hb : role.id = b
      · subst hb
        cases hpath with
        | here _ => exact Nat.zero_le _
        | @up n _ id x _ _ hpath hx hp _ =>
          rw [hosting_of_new hstored, role?_insert] at hx
          split at hx
          · obtain rfl := Option.some.inj hx
            cases hp
          · obtain ⟨above, habove⟩ := h.stored id x _ hx hp
            cases hstored.symm.trans habove
      · exact h.shallow n a b (hpath.of_hosting hstored hb)

lemma RolePath.of_write {old : Role}
    (hw : ∀ id, s'.role? id = if role.id = id then some role else s.role? id)
    (hold : s.role? role.id = some old) (hlive : role.isLive = true → old.isLive = true)
    (hparent : ∀ p, role.parent = some p → old.parent = some p ∨ s.Admits maxDepth role.id p)
    (h : s'.RolePath none n a b) :
    s.RolePath none n a b ∨ ∃ p, s.Admits maxDepth role.id p ∧ ∃ k m, n = k + 1 + m ∧
      s.RolePath none k a role.id ∧ s.RolePath none m p b := by
  have husable : ∀ {id x}, s'.Usable none id x → ∃ y, s.Usable none id y := by
    intro id x hx
    obtain ⟨hget, hx'⟩ := usable_none.mp hx
    rw [hw] at hget
    split at hget
    · rename_i hid
      subst hid
      obtain rfl := Option.some.inj hget
      exact ⟨old, usable_none.mpr ⟨hold, hlive hx'⟩⟩
    · exact ⟨x, usable_none.mpr ⟨hget, hx'⟩⟩
  -- A way passes the new link once: to come back to it would close a cycle that it does not close.
  induction h with
  | here hu =>
    obtain ⟨y, hy⟩ := husable hu
    exact Or.inl (.here hy)
  | @up n a id x p above hpath hx hp hu ih =>
    obtain ⟨y, hy⟩ := husable hu
    rw [hw] at hx
    split at hx
    · rename_i hid
      subst hid
      obtain rfl := Option.some.inj hx
      rcases ih with hpath | ⟨p', hadmits, k, m, rfl, hbelow, hround⟩
      · rcases hparent p hp with hsame | hadmits
        · exact Or.inl (.up hpath hold hsame hy)
        · exact Or.inr ⟨p, hadmits, n, 0, rfl, hpath, .here hy⟩
      · exact absurd hround (hadmits.opens m)
    · rcases ih with hpath | ⟨p', hadmits, k, m, rfl, hbelow, hbeyond⟩
      · exact Or.inl (.up hpath hx hp hy)
      · exact Or.inr ⟨p', hadmits, k, m + 1, rfl, hbelow, .up hbeyond hx hp hy⟩

lemma Planted.write {old : Role} (h : s.Planted maxDepth) (role : Role)
    (hw : ∀ id, s'.role? id = if role.id = id then some role else s.role? id)
    (hold : s.role? role.id = some old) (hlive : role.isLive = true → old.isLive = true)
    (hparent : ∀ p, role.parent = some p → old.parent = some p ∨ s.Admits maxDepth role.id p) :
    s'.Planted maxDepth := by
  have hkept : ∀ id x, s.role? id = some x → ∃ y, s'.role? id = some y := by
    intro id x hx
    rw [hw]
    split
    · exact ⟨role, rfl⟩
    · exact ⟨x, hx⟩
  constructor
  · intro id x p hx hp
    rw [hw] at hx
    split at hx
    · obtain rfl := Option.some.inj hx
      rcases hparent p hp with hsame | hadmits
      · obtain ⟨above, habove⟩ := h.stored _ old p hold hsame
        exact hkept p above habove
      · obtain ⟨above, habove, -⟩ := hadmits.live
        exact hkept p above habove
    · obtain ⟨above, habove⟩ := h.stored id x p hx hp
      exact hkept p above habove
  · intro n a b hpath
    rcases hpath.of_write hw hold hlive hparent with hpath | ⟨p, hadmits, k, m, rfl, hbelow, hbeyond⟩
    · exact h.shallow n a b hpath
    · exact hadmits.short k m a b hbelow hbeyond

/-- A role counts again after it had stopped to. -/
def Revives (s s' : Store) : Prop :=
  ∃ id old role, s.role? id = some old ∧ old.isLive = false ∧
    s'.role? id = some role ∧ role.isLive = true

inductive Replant (s : Store) (maxDepth : Nat) : Store → Prop
  | create (role : Role) : s.role? role.id = none →
      (∀ p, role.parent = some p → Admin.checkEdgeIn s.roles.rows maxDepth role p = .ok ()) →
      Replant s maxDepth { s with roles := s.roles.insert role }
  | update (old role : Role) (version : Nat) : s.role? role.id = some old →
      (∀ p, role.parent = some p → old.parent = some p ∨
        Admin.checkEdgeIn s.roles.rows maxDepth role p = .ok ()) →
      Replant s maxDepth { s with roles := s.roles.insert { role with version := version } }

lemma Planted.replant (h : s.Planted maxDepth) (hr : s.Replant maxDepth s')
    (hn : ¬ s.Revives s') : s'.Planted maxDepth := by
  have hadmits : ∀ {role p}, Admin.checkEdgeIn s.roles.rows maxDepth role p = .ok () →
      (s.hosting role).Admits maxDepth role.id p := fun {role p} hcheck =>
    admits_of_check (roleForest_of_shallow (h.hosting role).shallow) hcheck
  cases hr with
  | create role hnew hcheck =>
    have halone : ∀ id, (s.hosting role).role? id =
        if role.id = id then some { role with parent := none } else s.role? id := by
      intro id
      rw [hosting_of_new hnew]
      exact role?_insert s _ id
    refine (h.hosting role).write role (fun id => ?_) ((halone role.id).trans (if_pos rfl))
      (fun hlive => hlive) fun p hp => Or.inr (hadmits (hcheck p hp))
    rw [role?_insert, halone]
    split <;> rfl
  | update old role version hold hcheck =>
    refine h.write { role with version := version } (role?_insert s _) hold
      (fun hlive => ?_) fun p hp => ?_
    · by_contra hdead
      exact hn ⟨role.id, old, _, hold, Bool.eq_false_iff.mpr hdead,
        (role?_insert s _ role.id).trans (if_pos rfl), hlive⟩
    · rcases hcheck p hp with hsame | hcheck
      · exact Or.inl hsame
      · exact Or.inr (hosting_of_stored hold ▸ hadmits hcheck)

end Store

end AccessControl
