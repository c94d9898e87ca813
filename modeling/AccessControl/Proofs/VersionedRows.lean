import AccessControl.Proofs.Tables
import AccessControl.Proofs.WriteSteps

/-! Roles, permissions and bindings have a version. One that is updated or deleted is looked up, and
replaced by a row of the next version if the write presents the version that it has. -/

namespace AccessControl

inductive VersionedRow where
  | role (row : Role)
  | permission (row : Permission)
  | binding (row : Binding)

namespace VersionedRow

def entity : VersionedRow → Entity
  | role _ => .role
  | permission _ => .permission
  | binding _ => .binding

def id : VersionedRow → String
  | role row => row.id
  | permission row => row.id
  | binding row => row.id

def version : VersionedRow → Nat
  | role row => row.version
  | permission row => row.version
  | binding row => row.version

end VersionedRow

namespace Store

def versioned? (s : Store) : Entity → String → Option VersionedRow
  | .role, id => (s.role? id).map .role
  | .permission, id => (s.permission? id).map .permission
  | .binding, id => (s.binding? id).map .binding
  | .resourcePermission, _ => none

def putVersioned (s : Store) : VersionedRow → Store
  | .role row => { s with roles := s.roles.insert row }
  | .permission row => { s with permissions := s.permissions.insert row }
  | .binding row => { s with bindings := s.bindings.insert row }

variable {s : Store} {row : VersionedRow} {entity : Entity} {id : String}

lemma key_of_versioned? (h : s.versioned? entity id = some row) :
    row.entity = entity ∧ row.id = id := by
  cases entity with
  | role =>
    obtain ⟨r, hr, rfl⟩ := Option.map_eq_some_iff.mp h
    exact ⟨rfl, Table.key_of_get? hr⟩
  | permission =>
    obtain ⟨p, hp, rfl⟩ := Option.map_eq_some_iff.mp h
    exact ⟨rfl, Table.key_of_get? hp⟩
  | binding =>
    obtain ⟨b, hb, rfl⟩ := Option.map_eq_some_iff.mp h
    exact ⟨rfl, Table.key_of_get? hb⟩
  | resourcePermission => cases h

lemma versioned?_put (s : Store) (row : VersionedRow) (entity : Entity) (id : String) :
    (s.putVersioned row).versioned? entity id =
      if row.entity = entity ∧ row.id = id then some row else s.versioned? entity id := by
  cases row <;> cases entity <;>
    simp [putVersioned, versioned?, VersionedRow.entity, VersionedRow.id, role?, permission?,
      binding?, Table.get?_insert, Keyed.key] <;> split <;> simp

lemma available_put (s : Store) (row : VersionedRow) :
    (s.putVersioned row).available = s.available := by
  cases row <;> rfl

lemma map_checkVersion {α β : Type} (entity : Entity) (id : String) (expected found : Nat)
    (f : α → β) (a : α) :
    Except.map f (checkVersion entity id expected found >>= fun _ => .ok a) =
      (checkVersion entity id expected found >>= fun _ => .ok (f a)) := by
  rw [checkVersion]
  split <;> rfl

end Store

inductive VersionedWrite where
  | updateRole (row : Role)
  | deleteRole (id : String) (version : Nat) (now : Instant)
  | updatePermission (row : Permission)
  | updateBinding (row : Binding)
  | deleteBinding (id : String) (version : Nat)

namespace VersionedWrite

open Admin (bind_ok)

def entity : VersionedWrite → Entity
  | updateRole _ | deleteRole _ _ _ => .role
  | updatePermission _ => .permission
  | updateBinding _ | deleteBinding _ _ => .binding

def id : VersionedWrite → String
  | updateRole row => row.id
  | updatePermission row => row.id
  | updateBinding row => row.id
  | deleteRole id _ _ | deleteBinding id _ => id

def presented : VersionedWrite → Nat
  | updateRole row => row.version
  | updatePermission row => row.version
  | updateBinding row => row.version
  | deleteRole _ version _ | deleteBinding _ version => version

def check : VersionedWrite → Except Fault Unit
  | updateRole row => row.validate
  | _ => .ok ()

def result : VersionedWrite → VersionedRow → VersionedRow
  | updateRole row, stored => .role { row with version := Store.nextVersion stored.version }
  | deleteRole _ _ now, .role stored =>
    .role { stored with
      isActive := false, deletedAt := some now, version := Store.nextVersion stored.version }
  | updatePermission row, stored =>
    .permission { row with version := Store.nextVersion stored.version }
  | updateBinding row, stored => .binding { row with version := Store.nextVersion stored.version }
  | deleteBinding _ _, .binding stored =>
    .binding { stored with isActive := false, version := Store.nextVersion stored.version }
  | _, stored => stored

def act (s : Store) : VersionedWrite → Except Fault (VersionedRow × Store)
  | updateRole row => (s.updateRole row).map fun (row, s) => (.role row, s)
  | deleteRole id version now => (s.deleteRole id version now).map fun (row, s) => (.role row, s)
  | updatePermission row => (s.updatePermission row).map fun (row, s) => (.permission row, s)
  | updateBinding row => (s.updateBinding row).map fun (row, s) => (.binding row, s)
  | deleteBinding id version => (s.deleteBinding id version).map fun (row, s) => (.binding row, s)

def steps : VersionedWrite → Store.Steps VersionedRow
  | updateRole row => .role <$> Store.Steps.updateRole row
  | deleteRole id version now => .role <$> Store.Steps.deleteRole id version now
  | updatePermission row => .permission <$> Store.Steps.updatePermission row
  | updateBinding row => .binding <$> Store.Steps.updateBinding row
  | deleteBinding id version => .binding <$> Store.Steps.deleteBinding id version

variable {s s' : Store} {w : VersionedWrite} {row stored : VersionedRow}

lemma steps_eq (s : Store) (w : VersionedWrite) : w.steps s = Store.Steps.result s (w.act s) := by
  cases w with
  | updateRole row => exact Store.Steps.map_eq _ (Store.Steps.updateRole_eq row)
  | deleteRole id version now =>
    exact Store.Steps.map_eq _ (Store.Steps.deleteRole_eq id version now)
  | updatePermission row => exact Store.Steps.map_eq _ (Store.Steps.updatePermission_eq row)
  | updateBinding row => exact Store.Steps.map_eq _ (Store.Steps.updateBinding_eq row)
  | deleteBinding id version => exact Store.Steps.map_eq _ (Store.Steps.deleteBinding_eq id version)

lemma result_spec (h : s.versioned? w.entity w.id = some stored) :
    (w.result stored).entity = w.entity ∧ (w.result stored).id = w.id ∧
      (w.result stored).version = Store.nextVersion stored.version := by
  obtain ⟨he, hid⟩ := Store.key_of_versioned? h
  cases w <;> cases stored <;> first | exact ⟨rfl, rfl, rfl⟩ | exact ⟨rfl, hid, rfl⟩ | cases he

lemma act_eq (s : Store) (w : VersionedWrite) : w.act s = (do
    w.check
    s.call <|
      match s.versioned? w.entity w.id with
      | none => .error (.notFound w.entity w.id)
      | some stored => do
        Store.checkVersion w.entity w.id w.presented stored.version
        .ok (w.result stored, s.putVersioned (w.result stored))) := by
  cases w with
  | updateRole row =>
    rw [act, Store.updateRole, check]
    cases row.validate with
    | error fault => rfl
    | ok _ =>
      refine (Store.map_call ..).trans (congrArg s.call ?_)
      simp only [entity, id, Store.versioned?, Store.role?]
      cases s.roles.get? row.id with
      | none => rfl
      | some stored => exact Store.map_checkVersion ..
  | deleteRole id version now =>
    refine (Store.map_call ..).trans (congrArg s.call ?_)
    simp only [entity, VersionedWrite.id, Store.versioned?, Store.role?]
    cases s.roles.get? id with
    | none => rfl
    | some stored => exact Store.map_checkVersion ..
  | updatePermission row =>
    refine (Store.map_call ..).trans (congrArg s.call ?_)
    simp only [entity, id, Store.versioned?, Store.permission?]
    cases s.permissions.get? row.id with
    | none => rfl
    | some stored => exact Store.map_checkVersion ..
  | updateBinding row =>
    refine (Store.map_call ..).trans (congrArg s.call ?_)
    simp only [entity, id, Store.versioned?, Store.binding?]
    cases s.bindings.get? row.id with
    | none => rfl
    | some stored => exact Store.map_checkVersion ..
  | deleteBinding id version =>
    refine (Store.map_call ..).trans (congrArg s.call ?_)
    simp only [entity, VersionedWrite.id, Store.versioned?, Store.binding?]
    cases s.bindings.get? id with
    | none => rfl
    | some stored => exact Store.map_checkVersion ..

lemma act_eq_ok : w.act s = .ok (row, s') ↔ w.check = .ok () ∧ s.available = true ∧
    ∃ stored, s.versioned? w.entity w.id = some stored ∧ w.presented = stored.version ∧
      row = w.result stored ∧ s' = s.putVersioned row := by
  rw [act_eq, bind_ok]
  constructor
  · rintro ⟨⟨⟩, hc, h⟩
    obtain ⟨ha, h⟩ := Store.call_eq_ok.mp h
    split at h
    · cases h
    · rename_i stored hstored
      obtain ⟨⟨⟩, hversion, h⟩ := bind_ok.mp h
      obtain ⟨rfl, rfl⟩ := Prod.mk.inj (Except.ok.inj h)
      exact ⟨hc, ha, stored, hstored, Store.checkVersion_eq_ok.mp hversion, rfl, rfl⟩
  · rintro ⟨hc, ha, stored, hstored, hversion, rfl, rfl⟩
    refine ⟨(), hc, Store.call_eq_ok.mpr ⟨ha, ?_⟩⟩
    rw [hstored]
    exact bind_ok.mpr ⟨(), Store.checkVersion_eq_ok.mpr hversion, rfl⟩

lemma spec_of_ok (h : w.act s = .ok (row, s')) : ∃ stored,
    s.versioned? w.entity w.id = some stored ∧ stored.version = w.presented ∧
      s' = s.putVersioned row ∧ (row.entity = w.entity ∧ row.id = w.id) ∧
      row.version = Store.nextVersion stored.version := by
  obtain ⟨-, -, stored, hstored, hversion, rfl, rfl⟩ := act_eq_ok.mp h
  obtain ⟨he, hid, hnext⟩ := result_spec hstored
  exact ⟨stored, hstored, hversion.symm, rfl, ⟨he, hid⟩, hnext⟩

lemma act_of_stale (hc : w.check = .ok ()) (ha : s.available = true)
    (h : s.versioned? w.entity w.id = some stored) (hne : stored.version ≠ w.presented) :
    w.act s = .error (.conflict w.entity w.id w.presented stored.version) := by
  have hversion : Store.checkVersion w.entity w.id w.presented stored.version =
      .error (.conflict w.entity w.id w.presented stored.version) := if_neg (Ne.symm hne)
  rw [act_eq, hc, Store.call, if_pos ha, h]
  exact congrArg (· >>= fun _ => .ok (w.result stored, s.putVersioned (w.result stored))) hversion

end VersionedWrite

end AccessControl
