import AccessControl.Proofs.Writes

/-! The operations of administration as one type. Each one that announces its change leaves the engine
as it was, or edits the store and announces the edit. -/

namespace AccessControl

namespace Engine

variable {σ : Type} [CacheService σ]

def announce (e : Engine σ) (store : Store) (changes : List Change) : Engine σ :=
  changes.foldl (fun e c => (e.invalidate c).2) { e with store := store }

end Engine

namespace Admin

inductive Operation
  | createRole (role : Role)
  | updateRole (role : Role)
  | setRoleParent (id : String) (parent : Option String) (version : Nat)
  | deleteRole (id : String) (version : Nat) (now : Instant)
  | assignRole (row : UserRole)
  | revokeRole (principal role : String)
  | createPermission (row : Permission)
  | updatePermission (row : Permission)
  | linkPermission (role permission : String)
  | unlinkPermission (role permission : String)
  | grantResource (row : ResourcePermission)
  | revokeResource (id : String)
  | createBinding (row : Binding)
  | updateBinding (row : Binding)
  | deleteBinding (id : String) (version : Nat)
  | createGroup (row : Group)
  | assignGroupRole (row : GroupRole)
  | revokeGroupRole (group role : String)
  | addMember (row : Membership)
  | removeMember (group principal : String)
  | addInheritance (edge : Inheritance)
  | putAttribute (row : Attribute)

namespace Operation

variable {σ : Type} [CacheService σ]

def act (e : Engine σ) : Operation → Engine σ
  | createRole role => (Admin.createRole e role).2
  | updateRole role => (Admin.updateRole e role).2
  | setRoleParent id parent version => (Admin.setRoleParent e id parent version).2
  | deleteRole id version now => (Admin.deleteRole e id version now).2
  | assignRole row => (Admin.assignRole e row).2
  | revokeRole principal role => (Admin.revokeRole e principal role).2
  | createPermission row => (Admin.createPermission e row).2
  | updatePermission row => (Admin.updatePermission e row).2
  | linkPermission role permission => (Admin.linkPermission e role permission).2
  | unlinkPermission role permission => (Admin.unlinkPermission e role permission).2
  | grantResource row => (Admin.grantResource e row).2
  | revokeResource id => (Admin.revokeResource e id).2
  | createBinding row => (Admin.createBinding e row).2
  | updateBinding row => (Admin.updateBinding e row).2
  | deleteBinding id version => (Admin.deleteBinding e id version).2
  | createGroup row => (Admin.createGroup e row).2
  | assignGroupRole row => (Admin.assignGroupRole e row).2
  | revokeGroupRole group role => (Admin.revokeGroupRole e group role).2
  | addMember row => (Admin.addMember e row).2
  | removeMember group principal => (Admin.removeMember e group principal).2
  | addInheritance edge => (Admin.addInheritance e edge).2
  | putAttribute row => (Admin.putAttribute e row).2

def Announced : Operation → Prop
  | createPermission _ | createGroup _ => False
  | _ => True

def Proper : Operation → Prop
  | createRole role | updateRole role => CacheKey.Plain role.id
  | assignRole row => row.window.Regular
  | createBinding row | updateBinding row => ∀ c, row.caveat = some c → c.Codable
  | assignGroupRole row => row.window.Regular
  | addMember row => row.window.Regular
  | addInheritance edge => edge.window.Regular
  | putAttribute row => RegularBound row.expiresAt
  | _ => True

/-- A binding that the operation creates has an unused id. -/
def Unused (s : Store) : Operation → Prop
  | createBinding row => s.binding? row.id = none
  | _ => True

lemma commit_cases {α : Type} (e : Engine σ) (write : Except Fault (α × Store))
    (changes : α → List Change) : (commit e write changes).2 = e ∨ ∃ row store,
      write = .ok (row, store) ∧ (commit e write changes).2 = e.announce store (changes row) := by
  cases write with
  | error fault => exact Or.inl rfl
  | ok written => exact Or.inr ⟨written.1, written.2, rfl, rfl⟩

def Settles (writes : Store → List Change → Prop) (e e' : Engine σ) : Prop :=
  e' = e ∨ ∃ s' changes, writes s' changes ∧ e' = e.announce s' changes

lemma Settles.mono {writes writes' : Store → List Change → Prop} {e e' : Engine σ}
    (h : Settles writes e e')
    (hle : ∀ s' changes, writes s' changes → e' = e.announce s' changes → writes' s' changes) :
    Settles writes' e e' := by
  rcases h with h | ⟨s', changes, hw, he⟩
  · exact Or.inl h
  · exact Or.inr ⟨s', changes, hle s' changes hw he, he⟩

lemma settles_commit {α : Type} {writes : Store → List Change → Prop} {e : Engine σ}
    {write : Except Fault (α × Store)} {changes : α → List Change}
    (h : ∀ row s', write = .ok (row, s') → writes s' (changes row)) :
    Settles writes e (commit e write changes).2 := by
  rcases commit_cases e write changes with he | ⟨row, s', hw, he⟩
  · exact Or.inl he
  · exact Or.inr ⟨s', changes row, h row s' hw, he⟩

lemma settles_updateRole {e : Engine σ} {role : Role} (hid : CacheKey.Plain role.id) :
    Settles e.store.Edit e (Admin.updateRole e role).2 := by
  refine settles_commit fun role' s' h => ?_
  obtain ⟨current, -, h⟩ := bind_ok.mp h
  simp only at h
  split at h
  · obtain ⟨-, -, h⟩ := bind_ok.mp h
    exact Store.edit_of_updateRole hid h
  · exact Store.edit_of_updateRole hid h

lemma storedRole_ok {s : Store} {id : String} {role : Role} (h : storedRole s id = .ok role) :
    s.role? id = some role := by
  obtain ⟨found, hf, h⟩ := bind_ok.mp h
  obtain rfl := Store.read_ok hf
  split at h
  · rename_i role' hget
    obtain rfl := Except.ok.inj h
    exact hget
  · cases h

lemma settles_setRoleParent {e : Engine σ} (hs : e.store.Cacheable) (id : String)
    (parent : Option String) (version : Nat) :
    Settles e.store.Edit e (Admin.setRoleParent e id parent version).2 := by
  rw [Admin.setRoleParent]
  split
  · exact Or.inl rfl
  · rename_i role hstored
    exact settles_updateRole (hs.roles role (Table.mem_of_get? (storedRole_ok hstored)))

lemma act_settles (e : Engine σ) {op : Operation} (hs : e.store.Cacheable)
    (hp : op.Proper) (hu : op.Unused e.store) (ha : op.Announced) :
    ∃ ids, Settles e.store.Edit { e with ids := ids } (op.act e) := by
  cases op with
  | linkPermission role permission =>
    exact ⟨_, settles_commit fun _ _ h => Store.edit_of_insertRolePermission h⟩
  | createPermission | createGroup => exact ha.elim
  | createRole role =>
    refine ⟨e.ids, settles_commit fun role' s' h => ?_⟩
    obtain ⟨-, -, h⟩ := bind_ok.mp h
    obtain ⟨-, -, h⟩ := bind_ok.mp h
    exact Store.edit_of_insertRole hp h
  | updateRole role => exact ⟨e.ids, settles_updateRole hp⟩
  | setRoleParent id parent version => exact ⟨e.ids, settles_setRoleParent hs id parent version⟩
  | deleteRole id version now =>
    exact ⟨e.ids, settles_commit fun _ _ h => Store.edit_of_deleteRole hs h⟩
  | assignRole row =>
    exact ⟨e.ids, settles_commit fun _ _ h => Store.edit_of_insertUserRole hs hp h⟩
  | revokeRole principal role =>
    exact ⟨e.ids, settles_commit fun _ _ h => Store.edit_of_deactivateUserRole hs h⟩
  | updatePermission row =>
    exact ⟨e.ids, settles_commit fun _ _ h => Store.edit_of_updatePermission h⟩
  | unlinkPermission role permission =>
    exact ⟨e.ids, settles_commit fun _ _ h => Store.edit_of_deactivateRolePermission h⟩
  | grantResource row =>
    exact ⟨e.ids, settles_commit fun _ _ h => Store.edit_of_insertResourcePermission h⟩
  | revokeResource id =>
    exact ⟨e.ids, settles_commit fun _ _ h => Store.edit_of_deactivateResourcePermission h⟩
  | createBinding row =>
    exact ⟨e.ids, settles_commit fun _ _ h => Store.edit_of_insertBinding hp hu h⟩
  | updateBinding row =>
    refine ⟨e.ids, settles_commit fun row' s' h => ?_⟩
    exact Store.edit_of_updateBinding hp h
  | deleteBinding id version =>
    exact ⟨e.ids, settles_commit fun _ _ h => Store.edit_of_deleteBinding hs h⟩
  | assignGroupRole row =>
    exact ⟨e.ids, settles_commit fun _ _ h => Store.edit_of_insertGroupRole hs hp h⟩
  | revokeGroupRole group role =>
    exact ⟨e.ids, settles_commit fun _ _ h => Store.edit_of_deactivateGroupRole hs h⟩
  | addMember row =>
    exact ⟨e.ids, settles_commit fun _ _ h => Store.edit_of_insertMembership hs hp h⟩
  | removeMember group principal =>
    exact ⟨e.ids, settles_commit fun _ _ h => Store.edit_of_deactivateMembership hs h⟩
  | addInheritance edge =>
    refine ⟨e.ids, settles_commit fun edge' s' h => ?_⟩
    obtain ⟨-, -, h⟩ := bind_ok.mp h
    exact Store.edit_of_insertInheritance hp h
  | putAttribute row =>
    exact ⟨e.ids, settles_commit fun _ _ h => Store.edit_of_putAttribute hs hp h⟩

end Operation

end Admin

end AccessControl
