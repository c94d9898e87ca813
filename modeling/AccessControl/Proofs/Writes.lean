import AccessControl.Admin
import AccessControl.Proofs.Edits

/-! Every write that succeeds is an edit of the store, announced as administration announces it. -/

namespace AccessControl

namespace Admin

lemma bind_ok {ε α β : Type} {x : Except ε α} {f : α → Except ε β} {b : β} :
    x >>= f = .ok b ↔ ∃ a, x = .ok a ∧ f a = .ok b := by
  cases x with
  | error e => simp [bind, Except.bind]
  | ok a => simp [bind, Except.bind]

lemma giving_ok {α : Type} {row row' : α} {write : Except Fault Store} {s : Store} :
    giving row write = .ok (row', s) ↔ row = row' ∧ write = .ok s := by
  cases write with
  | error e => simp [giving, Except.map]
  | ok s' => simp [giving, Except.map]

end Admin

namespace Store

open Admin (giving bind_ok giving_ok)

variable {s s' : Store}

lemma call_eq_ok {α : Type} {answer : Except Fault α} {a : α} :
    s.call answer = .ok a ↔ s.available = true ∧ answer = .ok a := by
  rw [call]
  split <;> simp [*]

lemma call_ok {α : Type} {answer : Except Fault α} {a : α} (h : s.call answer = .ok a) :
    answer = .ok a :=
  (call_eq_ok.mp h).2

lemma read_ok {α : Type} {a b : α} (h : s.read a = .ok b) : a = b :=
  Except.ok.inj (call_ok h)

lemma checkVersion_eq_ok {entity : Entity} {id : String} {expected found : Nat} :
    checkVersion entity id expected found = .ok () ↔ expected = found := by
  rw [checkVersion]
  split <;> simp [*]

lemma insertRole_ok {role : Role} (h : s.insertRole role = .ok s') :
    role.validate = .ok () ∧ s.role? role.id = none ∧
      s' = { s with roles := s.roles.insert role } := by
  obtain ⟨⟨⟩, hrole, h⟩ := bind_ok.mp h
  have h := call_ok h
  split at h
  · cases h
  · rename_i hnew
    rw [Table.contains, Option.not_isSome_iff_eq_none] at hnew
    exact ⟨hrole, hnew, (Except.ok.inj h).symm⟩

lemma updateRole_ok {role updated : Role} (h : s.updateRole role = .ok (updated, s')) :
    role.validate = .ok () ∧ ∃ stored, s.role? role.id = some stored ∧
      role.version = stored.version ∧
      updated = { role with version := nextVersion stored.version } ∧
      s' = { s with roles := s.roles.insert updated } := by
  obtain ⟨⟨⟩, hrole, h⟩ := bind_ok.mp h
  have h := call_ok h
  split at h
  · cases h
  · rename_i stored hstored
    obtain ⟨⟨⟩, hversion, h⟩ := bind_ok.mp h
    obtain ⟨rfl, rfl⟩ := Prod.mk.inj (Except.ok.inj h)
    exact ⟨hrole, stored, hstored, checkVersion_eq_ok.mp hversion, rfl, rfl⟩

lemma deleteRole_ok {id : String} {version : Nat} {now : Instant} {deleted : Role}
    (h : s.deleteRole id version now = .ok (deleted, s')) :
    ∃ stored, s.role? id = some stored ∧ version = stored.version ∧
      deleted = { stored with
        isActive := false, deletedAt := some now, version := nextVersion stored.version } ∧
      s' = { s with roles := s.roles.insert deleted } := by
  have h := call_ok h
  split at h
  · cases h
  · rename_i stored hstored
    obtain ⟨⟨⟩, hversion, h⟩ := bind_ok.mp h
    obtain ⟨rfl, rfl⟩ := Prod.mk.inj (Except.ok.inj h)
    exact ⟨stored, hstored, checkVersion_eq_ok.mp hversion, rfl, rfl⟩

lemma updatePermission_ok {row updated : Permission}
    (h : s.updatePermission row = .ok (updated, s')) :
    ∃ stored, s.permission? row.id = some stored ∧ row.version = stored.version ∧
      updated = { row with version := nextVersion stored.version } ∧
      s' = { s with permissions := s.permissions.insert updated } := by
  have h := call_ok h
  split at h
  · cases h
  · rename_i stored hstored
    obtain ⟨⟨⟩, hversion, h⟩ := bind_ok.mp h
    obtain ⟨rfl, rfl⟩ := Prod.mk.inj (Except.ok.inj h)
    exact ⟨stored, hstored, checkVersion_eq_ok.mp hversion, rfl, rfl⟩

lemma updateBinding_ok {row updated : Binding} (h : s.updateBinding row = .ok (updated, s')) :
    ∃ stored, s.binding? row.id = some stored ∧ row.version = stored.version ∧
      updated = { row with version := nextVersion stored.version } ∧
      s' = { s with bindings := s.bindings.insert updated } := by
  have h := call_ok h
  split at h
  · cases h
  · rename_i stored hstored
    obtain ⟨⟨⟩, hversion, h⟩ := bind_ok.mp h
    obtain ⟨rfl, rfl⟩ := Prod.mk.inj (Except.ok.inj h)
    exact ⟨stored, hstored, checkVersion_eq_ok.mp hversion, rfl, rfl⟩

lemma deleteBinding_ok {id : String} {version : Nat} {deleted : Binding}
    (h : s.deleteBinding id version = .ok (deleted, s')) :
    ∃ stored, s.binding? id = some stored ∧ version = stored.version ∧
      deleted = { stored with isActive := false, version := nextVersion stored.version } ∧
      s' = { s with bindings := s.bindings.insert deleted } := by
  have h := call_ok h
  split at h
  · cases h
  · rename_i stored hstored
    obtain ⟨⟨⟩, hversion, h⟩ := bind_ok.mp h
    obtain ⟨rfl, rfl⟩ := Prod.mk.inj (Except.ok.inj h)
    exact ⟨stored, hstored, checkVersion_eq_ok.mp hversion, rfl, rfl⟩

lemma deactivateResourcePermission_ok {id : String} {off : ResourcePermission}
    (h : s.deactivateResourcePermission id = .ok (off, s')) :
    ∃ rows, switchOffGrant id s.resourcePermissions = some (off, rows) ∧
      s' = { s with resourcePermissions := rows } := by
  have h := call_ok h
  split at h
  · cases h
  · rename_i off' rows hoff
    obtain ⟨rfl, rfl⟩ := Prod.mk.inj (Except.ok.inj h)
    exact ⟨rows, hoff, rfl⟩

lemma insertGroup_ok {group : Group} (h : s.insertGroup group = .ok s') :
    group.validate = .ok () ∧ s' = { s with groups := s.groups.insert group } := by
  obtain ⟨⟨⟩, hgroup, h⟩ := bind_ok.mp h
  exact ⟨hgroup, (read_ok h).symm⟩

lemma insertInheritance_ok {edge : Inheritance} (h : s.insertInheritance edge = .ok s') :
    edge.parent ≠ edge.child ∧ s' = { s with inheritance := s.inheritance ++ [edge] } := by
  rw [insertInheritance] at h
  split at h
  · cases h
  · rename_i hne
    exact ⟨hne, (read_ok h).symm⟩

lemma filter_switchOff {α : Type} {chosen p : α → Bool} {off : α → α} {rows : List α}
    (h : ∀ r, chosen r = true → p r = false ∧ p (off r) = false) :
    (switchOff chosen off rows).2.filter p = rows.filter p := by
  induction rows with
  | nil => rfl
  | cons r rest ih =>
    change ((if chosen r then off r else r) :: _).filter p = _
    rw [List.filter_cons, List.filter_cons, ← ih]
    split
    · rename_i hc
      simp only [(h r hc).1, (h r hc).2]
      rfl
    · rfl

lemma forall_switchOff {α : Type} {chosen : α → Bool} {off : α → α} {rows : List α} {P : α → Prop}
    (h : ∀ r ∈ rows, P r) (hoff : ∀ r, P r → P (off r)) :
    ∀ r ∈ (switchOff chosen off rows).2, P r := by
  intro r hr
  obtain ⟨r', hr', rfl⟩ := List.mem_map.mp hr
  split
  · exact hoff r' (h r' hr')
  · exact h r' hr'

lemma filter_append_of_not {α : Type} {p : α → Bool} {rows : List α} {row : α}
    (h : p row = false) : (rows ++ [row]).filter p = rows.filter p := by
  simp [h]

lemma forall_append {α : Type} {rows : List α} {row : α} {P : α → Prop} (h : ∀ r ∈ rows, P r)
    (hrow : P row) : ∀ r ∈ rows ++ [row], P r := by
  intro r hr
  rcases List.mem_append.mp hr with hr | hr
  · exact h r hr
  · obtain rfl := List.mem_singleton.mp hr
    exact hrow

lemma edit_of_insertRole {role role' : Role} (hid : CacheKey.Plain role.id)
    (h : giving role (s.insertRole role) = .ok (role', s')) : s.Edit s' [.role role'.id] := by
  obtain ⟨rfl, hok⟩ := giving_ok.mp h
  obtain ⟨-, -, rfl⟩ := insertRole_ok hok
  exact .role hid

lemma edit_of_updateRole {role role' : Role} (hid : CacheKey.Plain role.id)
    (h : s.updateRole role = .ok (role', s')) : s.Edit s' [.role role'.id] := by
  obtain ⟨-, stored, -, -, rfl, rfl⟩ := updateRole_ok h
  exact .role hid

lemma edit_of_deleteRole {id : String} {version : Nat} {now : Instant} {role : Role}
    (hs : s.Cacheable) (h : s.deleteRole id version now = .ok (role, s')) :
    s.Edit s' [.role id] := by
  obtain ⟨stored, hget, -, rfl, rfl⟩ := deleteRole_ok h
  have hid : stored.id = id := Table.key_of_get? hget
  have hplain := hs.roles stored (Table.mem_of_get? hget)
  rw [← hid]
  exact .role hplain

lemma edit_of_insertUserRole {row row' : UserRole} (hs : s.Cacheable) (hw : row.window.Regular)
    (h : giving row (s.insertUserRole row) = .ok (row', s')) :
    s.Edit s' [.userRole row'.principal row'.role] := by
  obtain ⟨rfl, hok⟩ := giving_ok.mp h
  obtain rfl := read_ok hok
  refine .userRoles (forall_append hs.userRoles hw) fun p hp => filter_append_of_not ?_
  simpa using fun he => hp he.symm

lemma edit_of_deactivateUserRole {principal role : String} {n : Nat} (hs : s.Cacheable)
    (h : s.deactivateUserRole principal role = .ok (n, s')) :
    s.Edit s' [.userRole principal role] := by
  obtain ⟨-, rfl⟩ := Prod.mk.inj (read_ok h)
  refine .userRoles (forall_switchOff hs.userRoles fun _ hw => hw) fun p hp =>
    filter_switchOff fun u hu => ?_
  simp only [Bool.and_eq_true, beq_iff_eq] at hu
  simpa [hu.1.2] using fun he => hp he.symm

lemma edit_of_updatePermission {row row' : Permission}
    (h : s.updatePermission row = .ok (row', s')) : s.Edit s' [.permission row'.id] := by
  obtain ⟨stored, -, -, rfl, rfl⟩ := updatePermission_ok h
  exact .permission

lemma edit_of_insertRolePermission {row row' : RolePermission}
    (h : giving row (s.insertRolePermission row) = .ok (row', s')) :
    s.Edit s' [.rolePermission row.role row.permission] := by
  obtain ⟨rfl, hok⟩ := giving_ok.mp h
  obtain rfl := read_ok hok
  refine .links fun r hr => filter_append_of_not ?_
  simpa using fun he => hr he.symm

lemma edit_of_deactivateRolePermission {role permission : String} {n : Nat}
    (h : s.deactivateRolePermission role permission = .ok (n, s')) :
    s.Edit s' [.rolePermission role permission] := by
  obtain ⟨-, rfl⟩ := Prod.mk.inj (read_ok h)
  refine .links fun r hr => filter_switchOff fun l hl => ?_
  simp only [Bool.and_eq_true, beq_iff_eq] at hl
  simpa [hl.1.2] using fun he => hr he.symm

lemma edit_of_insertResourcePermission {row row' : ResourcePermission}
    (h : giving row (s.insertResourcePermission row) = .ok (row', s')) :
    s.Edit s' [.resourcePermission row'.role] := by
  obtain ⟨rfl, hok⟩ := giving_ok.mp h
  obtain rfl := read_ok hok
  refine .grants fun r hr => filter_append_of_not ?_
  simpa using fun he => hr he.symm

lemma filter_switchOffGrant {id : String} {rows rows' : List ResourcePermission}
    {off : ResourcePermission} (h : switchOffGrant id rows = some (off, rows')) {r : String}
    (hr : r ≠ off.role) : rows'.filter (fun p => p.role == r) = rows.filter fun p => p.role == r := by
  induction rows generalizing rows' with
  | nil => simp [switchOffGrant] at h
  | cons p rest ih =>
    rw [switchOffGrant] at h
    split at h
    · obtain ⟨rfl, rfl⟩ := Prod.mk.inj (Option.some.inj h)
      have hne : ¬ p.role = r := fun he => hr he.symm
      simp [hne]
    · obtain ⟨⟨off', rest'⟩, hrest, h⟩ := Option.map_eq_some_iff.mp h
      obtain ⟨rfl, rfl⟩ := Prod.mk.inj h
      rw [List.filter_cons, List.filter_cons, ih hrest]

lemma edit_of_deactivateResourcePermission {id : String} {row : ResourcePermission}
    (h : s.deactivateResourcePermission id = .ok (row, s')) :
    s.Edit s' [.resourcePermission row.role] := by
  obtain ⟨rows, hoff, rfl⟩ := deactivateResourcePermission_ok h
  exact .grants fun r hr => filter_switchOffGrant hoff hr

lemma edit_of_insertBinding {row row' : Binding} (hc : ∀ c, row.caveat = some c → c.Codable)
    (hnew : s.binding? row.id = none) (h : giving row (s.insertBinding row) = .ok (row', s')) :
    s.Edit s' [.ofBinding row'] := by
  obtain ⟨rfl, hok⟩ := giving_ok.mp h
  obtain rfl := read_ok hok
  exact .binding hc List.mem_cons_self (by simp [hnew])

lemma edit_of_updateBinding {row row' : Binding} (hc : ∀ c, row.caveat = some c → c.Codable)
    (h : s.updateBinding row = .ok (row', s')) :
    s.Edit s' ((s.binding? row.id).toList.map Change.ofBinding ++ [.ofBinding row']) := by
  obtain ⟨stored, -, -, rfl, rfl⟩ := updateBinding_ok h
  refine .binding hc (List.mem_append_right _ List.mem_cons_self) fun old hold => ?_
  refine List.mem_append_left _ (List.mem_map_of_mem ?_)
  simpa using hold

lemma edit_of_deleteBinding {id : String} {version : Nat} {row : Binding} (hs : s.Cacheable)
    (h : s.deleteBinding id version = .ok (row, s')) : s.Edit s' [.ofBinding row] := by
  obtain ⟨stored, hget, -, rfl, rfl⟩ := deleteBinding_ok h
  have hid : stored.id = id := Table.key_of_get? hget
  refine .binding (hs.caveats stored (Table.mem_of_get? hget)) List.mem_cons_self ?_
  intro old hold
  have hold : s.binding? stored.id = some old := hold
  rw [hid, hget] at hold
  obtain rfl := Option.some.inj hold
  exact List.mem_cons_self

lemma edit_of_insertGroupRole {row row' : GroupRole} (hs : s.Cacheable) (hw : row.window.Regular)
    (h : giving row (s.insertGroupRole row) = .ok (row', s')) :
    s.Edit s' [.groupRole row'.group row'.role] := by
  obtain ⟨rfl, hok⟩ := giving_ok.mp h
  obtain rfl := read_ok hok
  refine .groupRoles (forall_append hs.groupRoles hw) fun g hg => filter_append_of_not ?_
  simpa using fun he => hg he.symm

lemma edit_of_deactivateGroupRole {group role : String} {n : Nat} (hs : s.Cacheable)
    (h : s.deactivateGroupRole group role = .ok (n, s')) :
    s.Edit s' [.groupRole group role] := by
  obtain ⟨-, rfl⟩ := Prod.mk.inj (read_ok h)
  refine .groupRoles (forall_switchOff hs.groupRoles fun _ hw => hw) fun g hg =>
    filter_switchOff fun r hr => ?_
  simp only [Bool.and_eq_true, beq_iff_eq] at hr
  simpa [hr.1.2] using fun he => hg he.symm

lemma edit_of_insertMembership {row row' : Membership} (hs : s.Cacheable)
    (hw : row.window.Regular) (h : giving row (s.insertMembership row) = .ok (row', s')) :
    s.Edit s' [.membership row'.group row'.principal] := by
  obtain ⟨rfl, hok⟩ := giving_ok.mp h
  obtain rfl := read_ok hok
  refine .memberships (forall_append hs.memberships hw) fun p hp => filter_append_of_not ?_
  simpa using fun he => hp he.symm

lemma edit_of_deactivateMembership {group principal : String} {n : Nat} (hs : s.Cacheable)
    (h : s.deactivateMembership group principal = .ok (n, s')) :
    s.Edit s' [.membership group principal] := by
  obtain ⟨-, rfl⟩ := Prod.mk.inj (read_ok h)
  refine .memberships (forall_switchOff hs.memberships fun _ hw => hw) fun p hp =>
    filter_switchOff fun m hm => ?_
  simp only [Bool.and_eq_true, beq_iff_eq] at hm
  simpa [hm.2] using fun he => hp he.symm

lemma edit_of_insertInheritance {edge edge' : Inheritance} (hw : edge.window.Regular)
    (h : giving edge (s.insertInheritance edge) = .ok (edge', s')) :
    s.Edit s' [.inheritance edge'.parent edge'.child] := by
  obtain ⟨rfl, hok⟩ := giving_ok.mp h
  obtain ⟨-, rfl⟩ := insertInheritance_ok hok
  exact .inheritance hw

lemma edit_of_putAttribute {row row' : Attribute} (hs : s.Cacheable)
    (hw : RegularBound row.expiresAt) (h : giving row (s.putAttribute row) = .ok (row', s')) :
    s.Edit s' [.attributes row'.subject] := by
  obtain ⟨rfl, hok⟩ := giving_ok.mp h
  obtain rfl := read_ok hok
  refine .attributes (forall_append (fun a ha => hs.attributes a (List.mem_filter.mp ha).1) hw) ?_
  intro x hx type
  have hrow : (row.subject == x) = false := by simpa using fun he => hx he.symm
  rw [filter_append_of_not (by simp [hrow]), List.filter_filter]
  refine List.filter_congr fun a _ => ?_
  by_cases ha : a.subject = x
  · have hslot : a.sameSlot row = false := by
      have : (a.subject == row.subject) = false := by simpa [ha] using hx
      simp [Attribute.sameSlot, this]
    simp [hslot]
  · simp [ha]

end Store

end AccessControl
