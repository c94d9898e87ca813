import AccessControl.Proofs.GroupCycles
import AccessControl.Proofs.RoleRuns
import AccessControl.Proofs.VersionedRows

/-! Administration changes stored permissions and bindings by updates and deletes that present their
version. A permission or a binding that is created takes the place of one with its id unasked, and
versions start over after the last one. -/

namespace AccessControl

namespace Admin.Operation

def write? : Operation → Option VersionedWrite
  | updatePermission row => some (.updatePermission row)
  | updateBinding row => some (.updateBinding row)
  | deleteBinding id version => some (.deleteBinding id version)
  | _ => none

def stores? : Operation → Option VersionedRow
  | createPermission row => some (.permission row)
  | createBinding row => some (.binding row)
  | _ => none

inductive Versions (op : Operation) (s : Store) : Store → Prop
  | untouched {s' : Store} : s'.permissions = s.permissions → s'.bindings = s.bindings →
      Versions op s s'
  | stored (row : VersionedRow) : op.stores? = some row → s.available = true →
      Versions op s (s.putVersioned row)
  | written {w : VersionedWrite} {row : VersionedRow} {s' : Store} : op.write? = some w →
      w.act s = .ok (row, s') → Versions op s s'

variable {σ : Type} [CacheService σ] {e : Engine σ} {op : Operation}

lemma Versions.of_settles {s : Store} {e' : Engine σ} (hs : e.store = s)
    (h : Settles (fun s' _ => op.Versions s s') e e') : op.Versions s e'.store := by
  subst hs
  rcases Engine.store_of_settles h with he | ⟨-, hv⟩
  · rw [he]
    exact .untouched rfl rfl
  · exact hv

lemma versions_of_giving {α : Type} {row row' : α} {s s' written : Store}
    (h : giving row (s.read written) = .ok (row', s'))
    (hp : written.permissions = s.permissions) (hb : written.bindings = s.bindings) :
    op.Versions s s' := by
  obtain ⟨-, h⟩ := giving_ok.mp h
  obtain rfl := Store.read_ok h
  exact .untouched hp hb

lemma versions_act (e : Engine σ) (op : Operation) : op.Versions e.store (op.act e).store := by
  cases op with
  | createRole | updateRole | setRoleParent | deleteRole =>
    refine .of_settles rfl ((act_replants e (by exact trivial)).mono fun s' _ hr _ => ?_)
    cases hr <;> exact .untouched rfl rfl
  | addInheritance edge =>
    refine .of_settles rfl ((settles_addInheritance e edge).mono fun s' _ hr _ => ?_)
    rw [hr.2]
    exact .untouched rfl rfl
  | linkPermission role permission =>
    exact .of_settles (e := e.freshId.2) rfl
      (settles_commit fun _ _ h => versions_of_giving h rfl rfl)
  | assignRole | grantResource | assignGroupRole | addMember | putAttribute =>
    exact .of_settles rfl (settles_commit fun _ _ h => versions_of_giving h rfl rfl)
  | revokeRole | unlinkPermission | revokeGroupRole | removeMember =>
    refine .of_settles rfl (settles_commit fun row s' h => ?_)
    obtain ⟨-, rfl⟩ := Prod.mk.inj (Store.read_ok h)
    exact .untouched rfl rfl
  | createGroup row =>
    refine .of_settles rfl (settles_commit fun row s' h => ?_)
    obtain ⟨-, h⟩ := giving_ok.mp h
    obtain ⟨-, rfl⟩ := Store.insertGroup_ok h
    exact .untouched rfl rfl
  | revokeResource id =>
    refine .of_settles rfl (settles_commit fun row s' h => ?_)
    obtain ⟨rows, -, rfl⟩ := Store.deactivateResourcePermission_ok h
    exact .untouched rfl rfl
  | createPermission row =>
    refine .of_settles rfl (settles_commit fun row' s' h => ?_)
    obtain ⟨-, h⟩ := giving_ok.mp h
    obtain ⟨ha, h⟩ := Store.call_eq_ok.mp h
    obtain rfl := Except.ok.inj h
    exact .stored (.permission row) rfl ha
  | createBinding row =>
    refine .of_settles rfl (settles_commit fun row' s' h => ?_)
    obtain ⟨-, h⟩ := giving_ok.mp h
    obtain ⟨ha, h⟩ := Store.call_eq_ok.mp h
    obtain rfl := Except.ok.inj h
    exact .stored (.binding row) rfl ha
  | updatePermission | updateBinding | deleteBinding =>
    refine .of_settles rfl (settles_commit fun row s' h => ?_)
    exact .written rfl (congrArg (Except.map _) h)

/-- A stored row is replaced by another one that is created, or its last version is passed. -/
def Slips (s : Store) (op : Operation) : Prop :=
  s.available = true ∧
    ((∃ row stored, op.stores? = some row ∧ s.versioned? row.entity row.id = some stored ∧
        row ≠ stored) ∨
      ∃ w stored, op.write? = some w ∧ s.versioned? w.entity w.id = some stored ∧
        w.presented = stored.version ∧ Word.bound ≤ stored.version + 1)

def Presents (op : Operation) (entity : Entity) (id : String) (version : Nat) : Prop :=
  ∃ w, op.write? = some w ∧ w.entity = entity ∧ w.id = id ∧ w.presented = version

variable {s : Store} {entity : Entity} {id : String} {row : VersionedRow} {w : VersionedWrite}

lemma versions_checked {s' : Store} (hv : op.Versions s s') (hn : ¬ op.Slips s)
    (hent : entity ≠ .role) (h : s.versioned? entity id = some row) :
    ∃ row', s'.versioned? entity id = some row' ∧ row.version ≤ row'.version ∧
      (row' = row ∨ op.Presents entity id row.version) := by
  cases hv with
  | untouched hp hb =>
    have hsame : s'.versioned? entity id = s.versioned? entity id := by
      cases entity with
      | role => exact absurd rfl hent
      | permission => simp only [Store.versioned?, Store.permission?, hp]
      | binding => simp only [Store.versioned?, Store.binding?, hb]
      | resourcePermission => rfl
    exact ⟨row, hsame.trans h, Nat.le_refl _, Or.inl rfl⟩
  | stored new hnew ha =>
    rw [Store.versioned?_put]
    split
    · rename_i hkey
      obtain ⟨rfl, rfl⟩ := hkey
      have hsame : new = row := by
        by_contra hne
        exact hn ⟨ha, Or.inl ⟨new, row, hnew, h, hne⟩⟩
      exact ⟨new, rfl, hsame ▸ Nat.le_refl _, Or.inl hsame⟩
    · exact ⟨row, h, Nat.le_refl _, Or.inl rfl⟩
  | @written w new s' hw hact =>
    obtain ⟨-, ha, -⟩ := VersionedWrite.act_eq_ok.mp hact
    obtain ⟨stored, hstored, hversion, rfl, ⟨he, hid⟩, hnext⟩ := w.spec_of_ok hact
    rw [Store.versioned?_put]
    split
    · rename_i hkey
      rw [he, hid] at hkey
      obtain ⟨rfl, rfl⟩ := hkey
      obtain rfl := Option.some.inj (h.symm.trans hstored)
      have hlt : row.version + 1 < Word.bound := by
        by_contra hge
        exact hn ⟨ha, Or.inr ⟨w, row, hw, h, hversion.symm, Nat.le_of_not_lt hge⟩⟩
      rw [Store.nextVersion_of_lt hlt] at hnext
      exact ⟨new, rfl, by omega, Or.inr ⟨w, hw, rfl, rfl, hversion.symm⟩⟩
    · exact ⟨row, h, Nat.le_refl _, Or.inl rfl⟩

lemma store_of_stores (ha : e.store.available = true) (h : op.stores? = some row) :
    (op.act e).store = e.store.putVersioned row := by
  cases op with
  | createPermission row' =>
    obtain rfl := Option.some.inj h
    exact Engine.store_commit ⟨row', giving_ok.mpr ⟨rfl, Store.read_of_available ha _⟩⟩
  | createBinding row' =>
    obtain rfl := Option.some.inj h
    exact Engine.store_commit ⟨row', giving_ok.mpr ⟨rfl, Store.read_of_available ha _⟩⟩
  | _ => cases h

lemma store_of_write {s' : Store} (h : op.write? = some w) (hact : w.act e.store = .ok (row, s')) :
    (op.act e).store = s' := by
  have hwrite : ∀ {α : Type} {write : Except Fault (α × Store)} {f : α × Store → VersionedRow × Store},
      (∀ x, (f x).2 = x.2) → write.map f = .ok (row, s') → ∃ row, write = .ok (row, s') := by
    intro α write f hf hmap
    cases write with
    | error fault => cases hmap
    | ok written =>
      have hs' : written.2 = s' := by rw [← hf, Except.ok.inj hmap]
      exact ⟨written.1, hs' ▸ rfl⟩
  cases op with
  | updatePermission | updateBinding | deleteBinding =>
    obtain rfl := Option.some.inj h
    exact Engine.store_commit (hwrite (fun _ => rfl) hact)
  | _ => cases h

lemma not_presents_of_stores {version : Nat} (h : op.stores? = some row) :
    ¬ op.Presents entity id version := by
  rintro ⟨w, hw, -⟩
  cases op with
  | createPermission | createBinding => cases hw
  | _ => cases h

lemma entity_of_stores (h : op.stores? = some row) : row.entity ≠ .role := by
  cases op with
  | createPermission | createBinding =>
    obtain rfl := Option.some.inj h
    exact Entity.noConfusion
  | _ => cases h

lemma spec_of_write (h : op.write? = some w) : w.entity ≠ .role ∧ w.check = .ok () := by
  cases op with
  | updatePermission | updateBinding | deleteBinding =>
    obtain rfl := Option.some.inj h
    exact ⟨Entity.noConfusion, rfl⟩
  | _ => cases h

lemma nextVersion_lt {version : Nat} (h : Word.bound ≤ version + 1) :
    Store.nextVersion version < version := by
  simp only [Store.nextVersion, Word.bound] at h ⊢
  omega

end Admin.Operation

namespace Engine

open Admin (Operation)

variable {σ : Type} [CacheService σ] {e : Engine σ} {ops : List Operation}

def operate (e : Engine σ) (ops : List Operation) : Engine σ :=
  ops.foldl Operation.act e

lemma operate_append (e : Engine σ) (ops ops' : List Operation) :
    e.operate (ops ++ ops') = (e.operate ops).operate ops' :=
  List.foldl_append

/-- Stored permissions and bindings stay in versions that do not decrease, and only an update or a
delete that presents the version of the time changes them. -/
structure VersionsChecked (e : Engine σ) (ops : List Operation) : Prop where
  monotone : ∀ first during rest, ops = first ++ (during ++ rest) →
    ∀ entity id row, entity ≠ .role → (e.operate first).store.versioned? entity id = some row →
      ∃ row', (e.operate (first ++ during)).store.versioned? entity id = some row' ∧
        row.version ≤ row'.version
  checked : ∀ first op rest, ops = first ++ op :: rest →
    ∀ entity id row row', entity ≠ .role →
      (e.operate first).store.versioned? entity id = some row →
      (op.act (e.operate first)).store.versioned? entity id = some row' →
      row' = row ∨ op.Presents entity id row.version

def Unslipped (e : Engine σ) (ops : List Operation) : Prop :=
  ∀ first op rest, ops = first ++ op :: rest → ¬ op.Slips (e.operate first).store

lemma Unslipped.checked (h : e.Unslipped ops) : e.VersionsChecked ops := by
  have hstep : ∀ {first op rest}, ops = first ++ op :: rest → ∀ {entity id row}, entity ≠ .role →
      (e.operate first).store.versioned? entity id = some row →
      ∃ row', (op.act (e.operate first)).store.versioned? entity id = some row' ∧
        row.version ≤ row'.version ∧ (row' = row ∨ op.Presents entity id row.version) := by
    intro first op rest hops entity id row hent hrow
    exact Operation.versions_checked (Operation.versions_act _ _) (h _ _ _ hops) hent hrow
  constructor
  case checked =>
    intro first op rest hops entity id row row' hent hrow hrow'
    obtain ⟨row'', hrow'', -, hchecked⟩ := hstep hops hent hrow
    obtain rfl := Option.some.inj (hrow'.symm.trans hrow'')
    exact hchecked
  case monotone =>
    intro first during
    induction during generalizing first with
    | nil =>
      intro rest hops entity id row hent hrow
      exact ⟨row, by rwa [List.append_nil], Nat.le_refl _⟩
    | cons op during ih =>
      intro rest hops entity id row hent hrow
      obtain ⟨row', hrow', hle, -⟩ := hstep hops hent hrow
      have hops' : ops = (first ++ [op]) ++ (during ++ rest) := by simpa using hops
      have hnext : e.operate (first ++ [op]) = op.act (e.operate first) :=
        operate_append e first [op]
      obtain ⟨row'', hrow'', hle'⟩ :=
        ih (first ++ [op]) rest hops' entity id row' hent (hnext ▸ hrow')
      exact ⟨row'', by simpa using hrow'', hle.trans hle'⟩

lemma VersionsChecked.unslipped (h : e.VersionsChecked ops) : e.Unslipped ops := by
  rintro first op rest hops ⟨ha, hslip⟩
  rcases hslip with ⟨row, stored, hnew, hstored, hne⟩ | ⟨w, stored, hw, hstored, hversion, hlast⟩
  · have hafter : (op.act (e.operate first)).store.versioned? row.entity row.id = some row := by
      rw [Operation.store_of_stores ha hnew, Store.versioned?_put, if_pos ⟨rfl, rfl⟩]
    rcases h.checked first op rest hops _ _ stored row (Operation.entity_of_stores hnew) hstored
      hafter with he | hp
    · exact hne he
    · exact Operation.not_presents_of_stores hnew hp
  · obtain ⟨hent, hcheck⟩ := Operation.spec_of_write hw
    obtain ⟨he, hid, hnext⟩ := VersionedWrite.result_spec hstored
    have hact := VersionedWrite.act_eq_ok.mpr ⟨hcheck, ha, stored, hstored, hversion, rfl, rfl⟩
    obtain ⟨row', hrow', hle⟩ := h.monotone first [op] rest hops _ _ stored hent hstored
    rw [operate_append, show (e.operate first).operate [op] = op.act (e.operate first) from rfl,
      Operation.store_of_write hw hact, Store.versioned?_put, if_pos ⟨he, hid⟩] at hrow'
    obtain rfl := Option.some.inj hrow'
    rw [hnext] at hle
    exact absurd (Operation.nextVersion_lt hlast) (Nat.not_lt_of_le hle)

/-- Along every run of administration from any store, permissions and bindings change through version
checks alone, exactly if none is created over a different one and none passes the last version. -/
theorem versionsChecked_iff (e : Engine σ) (ops : List Operation) :
    e.VersionsChecked ops ↔ e.Unslipped ops :=
  ⟨VersionsChecked.unslipped, Unslipped.checked⟩

end Engine

end AccessControl
