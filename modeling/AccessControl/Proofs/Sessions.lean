import AccessControl.Proofs.Upkeep
import AccessControl.Proofs.WriteSteps

/-! Operations of administration, call by call on the store. Between any two calls the store may
become unavailable or available again, and what a call has written stays written when a later one
fails. While the store stays as it is, an operation comes to the same call by call and at once. -/

namespace AccessControl

/-- A store, and whether it answers each of the calls to come. -/
structure Backend where
  store : Store
  answers : Nat → Bool

namespace Backend

def next (b : Backend) : Backend where
  store := { b.store with available := b.answers 0 }
  answers n := b.answers (n + 1)

def steady (s : Store) : Backend := ⟨s, fun _ => s.available⟩

lemma next_steady (s : Store) : (steady s).next = steady s := rfl

end Backend

abbrev Session := EStateM Fault Backend

namespace Session

variable {α : Type}

def read (question : Store → α) : Session α := fun b =>
  match b.next.store.read (question b.next.store) with
  | .ok answer => .ok answer b.next
  | .error fault => .error fault b.next

def write (steps : Store.Steps Unit) : Session Unit := fun b =>
  match steps b.next.store with
  | .ok _ s => .ok () { b.next with store := s }
  | .error fault s => .error fault { b.next with store := s }

def check : Except Fault α → Session α
  | .ok a => pure a
  | .error fault => throw fault

end Session

def Store.Operation.session (op : Store.Operation) : Session Unit := Session.write op.steps

/-! Operations of more than one call. -/

namespace Session

def storedRole (id : String) : Session Role := do
  match ← read (·.role? id) with
  | some role => pure role
  | none => throw (.notFound .role id)

def checkParent (maxDepth : Nat) (role : Role) : Session Unit := do
  match role.parent with
  | some parent => check (Admin.checkEdgeIn (← read (·.roles.rows)) maxDepth role parent)
  | none => pure ()

def createRole (maxDepth : Nat) (role : Role) : Session Unit := do
  check role.validate
  checkParent maxDepth role
  (Store.Operation.insertRole role).session

def updateRole (maxDepth : Nat) (role : Role) : Session Unit := do
  let current ← storedRole role.id
  if role.parent ≠ current.parent then checkParent maxDepth role
  (Store.Operation.updateRole role).session

def setRoleParent (maxDepth : Nat) (id : String) (parent : Option String) (version : Nat) :
    Session Unit := do
  let role ← storedRole id
  updateRole maxDepth { role with parent := parent, version := version }

def updateBinding (row : Binding) : Session Unit := do
  let _ ← read (·.binding? row.id)
  (Store.Operation.updateBinding row).session

def createGroup (row : Group) : Session Unit := do
  check row.validate
  (Store.Operation.insertGroup row).session

def subtreeStep (maxDepth : Nat) (w : SubtreeWalk) : Session (Option SubtreeWalk) := do
  match w.queue with
  | [] => pure none
  | (group, depth) :: queue =>
    if w.found.contains group then pure (some { w with queue := queue })
    else if depth < maxDepth then
      let children ← read (·.childEdges group)
      pure (some ⟨queue ++ children.map fun e => (e.child, depth + 1), w.found ++ [group]⟩)
    else pure (some ⟨queue, w.found ++ [group]⟩)

def subtreeRun (maxDepth : Nat) : Nat → SubtreeWalk → Session SubtreeWalk
  | 0, w => pure w
  | fuel + 1, w => do
    match ← subtreeStep maxDepth w with
    | none => pure w
    | some w => subtreeRun maxDepth fuel w

def groupSubtree (maxDepth : Nat) (group : String) : Session (List String) := do
  let edges := (← get).store.inheritance.length
  return (← subtreeRun maxDepth (edges + 1) ⟨[(group, 0)], []⟩).found

def addInheritance (maxDepth : Nat) (edge : Inheritance) : Session Unit := do
  let below ← groupSubtree maxDepth edge.child
  if below.contains edge.parent then
    throw (.validation ("group " ++ edge.parent ++ " already inherits from " ++ edge.child))
  (Store.Operation.insertInheritance edge).session

end Session

namespace Admin.Operation

def session (maxDepth : Nat) (fresh : String) : Operation → Session Unit
  | createRole role => Session.createRole maxDepth role
  | updateRole role => Session.updateRole maxDepth role
  | setRoleParent id parent version => Session.setRoleParent maxDepth id parent version
  | deleteRole id version now => (Store.Operation.deleteRole id version now).session
  | assignRole row => (Store.Operation.insertUserRole row).session
  | revokeRole principal role => (Store.Operation.deactivateUserRole principal role).session
  | createPermission row => (Store.Operation.insertPermission row).session
  | updatePermission row => (Store.Operation.updatePermission row).session
  | linkPermission role permission =>
    (Store.Operation.insertRolePermission (.link fresh role permission)).session
  | unlinkPermission role permission =>
    (Store.Operation.deactivateRolePermission role permission).session
  | grantResource row => (Store.Operation.insertResourcePermission row).session
  | revokeResource id => (Store.Operation.deactivateResourcePermission id).session
  | createBinding row => (Store.Operation.insertBinding row).session
  | updateBinding row => Session.updateBinding row
  | deleteBinding id version => (Store.Operation.deleteBinding id version).session
  | createGroup row => Session.createGroup row
  | assignGroupRole row => (Store.Operation.insertGroupRole row).session
  | revokeGroupRole group role => (Store.Operation.deactivateGroupRole group role).session
  | addMember row => (Store.Operation.insertMembership row).session
  | removeMember group principal => (Store.Operation.deactivateMembership group principal).session
  | addInheritance edge => Session.addInheritance maxDepth edge
  | putAttribute row => (Store.Operation.putAttribute row).session

variable {σ : Type} [CacheService σ]

def answer (e : Engine σ) : Operation → Except Fault Unit
  | createRole role => discard (Admin.createRole e role).1
  | updateRole role => discard (Admin.updateRole e role).1
  | setRoleParent id parent version => discard (Admin.setRoleParent e id parent version).1
  | deleteRole id version now => discard (Admin.deleteRole e id version now).1
  | assignRole row => discard (Admin.assignRole e row).1
  | revokeRole principal role => discard (Admin.revokeRole e principal role).1
  | createPermission row => discard (Admin.createPermission e row).1
  | updatePermission row => discard (Admin.updatePermission e row).1
  | linkPermission role permission => discard (Admin.linkPermission e role permission).1
  | unlinkPermission role permission => discard (Admin.unlinkPermission e role permission).1
  | grantResource row => discard (Admin.grantResource e row).1
  | revokeResource id => discard (Admin.revokeResource e id).1
  | createBinding row => discard (Admin.createBinding e row).1
  | updateBinding row => discard (Admin.updateBinding e row).1
  | deleteBinding id version => discard (Admin.deleteBinding e id version).1
  | createGroup row => discard (Admin.createGroup e row).1
  | assignGroupRole row => discard (Admin.assignGroupRole e row).1
  | revokeGroupRole group role => discard (Admin.revokeGroupRole e group role).1
  | addMember row => discard (Admin.addMember e row).1
  | removeMember group principal => discard (Admin.removeMember e group principal).1
  | addInheritance edge => discard (Admin.addInheritance e edge).1
  | putAttribute row => discard (Admin.putAttribute e row).1

end Admin.Operation

/-! A store that stays as it is. -/

namespace Session

variable {α β : Type} {s : Store}

def outcome : EStateM.Result Fault Backend Unit → Except Fault Unit × Store
  | .ok _ b => (.ok (), b.store)
  | .error fault b => (.error fault, b.store)

def settled (s : Store) : Except Fault (α × Store) → Except Fault Unit × Store
  | .ok (_, s') => (.ok (), s')
  | .error fault => (.error fault, s)

def Computes (p : Session α) (s : Store) (x : Except Fault α) : Prop :=
  p (.steady s) = check x (.steady s)

def Performs (p : Session Unit) (s : Store) (w : Except Fault (α × Store)) : Prop :=
  outcome (p (.steady s)) = settled s w

lemma computes_read (question : Store → α) : Computes (read question) s (s.read (question s)) := by
  rw [Computes, read, Backend.next_steady]
  change (match s.read (question s) with | .ok _ => _ | .error _ => _) = _
  cases s.read (question s) <;> rfl

lemma Computes.bind {p : Session α} {q : α → Session β} {x : Except Fault α}
    {y : α → Except Fault β} (hp : Computes p s x)
    (hq : ∀ a, x = .ok a → Computes (q a) s (y a)) : Computes (p >>= q) s (x >>= y) := by
  change EStateM.bind p q _ = _
  rw [EStateM.bind, hp]
  cases x with
  | error fault => rfl
  | ok a => exact hq a rfl

lemma Computes.ok_bind {p : Session α} {q : α → Session β} {a : α} (hp : Computes p s (.ok a)) :
    (p >>= q) (.steady s) = q a (.steady s) := by
  change EStateM.bind p q _ = _
  rw [EStateM.bind, hp]
  rfl

lemma Computes.error_bind {p : Session α} {q : α → Session β} {fault : Fault}
    (hp : Computes p s (.error fault)) : Computes (p >>= q) s (.error fault) :=
  hp.bind (y := fun _ => .error fault) fun a ha => by cases ha

lemma performs_store {op : Store.Operation} {w : Except Fault (α × Store)}
    (h : w.map (·.2) = op.act s) : Performs op.session s w := by
  rw [Performs, Store.Operation.session, write, Backend.next_steady]
  change outcome (match op.steps s with | .ok _ _ => _ | .error _ _ => _) = _
  rw [Store.Operation.steps_eq, ← h]
  cases w <;> rfl

lemma map_giving (row : α) (w : Except Fault Store) : (Admin.giving row w).map (·.2) = w := by
  cases w <;> rfl

lemma Computes.bind_performs {p : Session α} {q : α → Session Unit} {x : Except Fault α}
    {w : α → Except Fault (β × Store)} (hp : Computes p s x)
    (hq : ∀ a, x = .ok a → Performs (q a) s (w a)) : Performs (p >>= q) s (x >>= w) := by
  change outcome (EStateM.bind p q _) = _
  rw [EStateM.bind, hp]
  cases x with
  | error fault => rfl
  | ok a => exact hq a rfl

lemma settled_commit {σ : Type} [CacheService σ] (e : Engine σ)
    (write : Except Fault (α × Store)) (changes : α → List Change) :
    settled e.store write =
      (discard (Admin.commit e write changes).1, (Admin.commit e write changes).2.store) := by
  cases write with
  | error fault => rfl
  | ok written =>
    exact congrArg _ (Engine.announce_base e written.2 (changes written.1)).store.symm

/-! Operations of more than one call. -/

lemma computes_storedRole (id : String) : Computes (storedRole id) s (Admin.storedRole s id) := by
  refine (computes_read _).bind fun found _ => ?_
  cases found <;> rfl

lemma computes_checkParent (maxDepth : Nat) (role : Role) :
    Computes (checkParent maxDepth role) s (Admin.checkParent s maxDepth role) := by
  unfold checkParent Admin.checkParent
  cases role.parent with
  | none => rfl
  | some parent => exact (computes_read _).bind fun _ _ => rfl

lemma performs_createRole (maxDepth : Nat) (role : Role) :
    Performs (createRole maxDepth role) s (do
      role.validate
      Admin.checkParent s maxDepth role
      Admin.giving role (s.insertRole role)) := by
  have hvalid : Computes (check role.validate) s role.validate := rfl
  exact hvalid.bind_performs fun _ _ =>
    (computes_checkParent maxDepth role).bind_performs fun _ _ =>
      performs_store (map_giving role _)

lemma performs_updateRole (maxDepth : Nat) (role : Role) :
    Performs (updateRole maxDepth role) s (do
      let current ← Admin.storedRole s role.id
      if role.parent ≠ current.parent then Admin.checkParent s maxDepth role
      s.updateRole role) := by
  refine (computes_storedRole role.id).bind_performs fun current _ => ?_
  simp only
  split
  · exact (computes_checkParent maxDepth role).bind_performs fun _ _ => performs_store rfl
  · exact performs_store rfl

lemma read_bind_call {w : Except Fault β} (answer : α) :
    (s.read answer >>= fun _ => s.call w) = s.call w := by
  unfold Store.read Store.call
  cases s.available <;> rfl

lemma performs_updateBinding (row : Binding) :
    Performs (updateBinding row) s (s.updateBinding row) := by
  have h : Performs (updateBinding row) s
      (s.read (s.binding? row.id) >>= fun _ => s.updateBinding row) :=
    (computes_read _).bind_performs fun _ _ => performs_store rfl
  rwa [Store.updateBinding, read_bind_call] at h

lemma performs_createGroup (row : Group) :
    Performs (createGroup row) s (Admin.giving row (s.insertGroup row)) := by
  have hvalid : Computes (check row.validate) s row.validate := rfl
  have h : Performs (createGroup row) s
      (row.validate >>= fun _ => Admin.giving row (s.insertGroup row)) :=
    hvalid.bind_performs fun _ _ => performs_store (map_giving row _)
  have he : (row.validate >>= fun _ => Admin.giving row (s.insertGroup row)) =
      Admin.giving row (s.insertGroup row) := by
    rw [Store.insertGroup]
    cases row.validate <;> rfl
  rwa [he] at h

lemma computes_subtreeStep (ha : s.available = true) (maxDepth : Nat) (w : SubtreeWalk) :
    Computes (subtreeStep maxDepth w) s (.ok (SubtreeWalk.step s maxDepth w)) := by
  unfold subtreeStep SubtreeWalk.step
  cases w.queue with
  | nil => rfl
  | cons v queue =>
    simp only
    split
    · rfl
    · split
      · have hread : Computes (read (·.childEdges v.1)) s (.ok (s.childEdges v.1)) :=
          Store.read_of_available ha (s.childEdges v.1) ▸ computes_read _
        exact hread.ok_bind
      · rw [List.append_nil]
        rfl

lemma computes_subtreeRun (ha : s.available = true) (maxDepth n : Nat) (w : SubtreeWalk) :
    Computes (subtreeRun maxDepth n w) s (.ok (Walk.run (SubtreeWalk.step s maxDepth) n w)) := by
  induction n generalizing w with
  | zero => rfl
  | succ n ih =>
    refine (computes_subtreeStep ha maxDepth w).ok_bind.trans ?_
    rw [Walk.run]
    cases SubtreeWalk.step s maxDepth w with
    | none => rfl
    | some w' => exact ih w'

lemma computes_groupSubtree {maxDepth : Nat} (hd : 0 < maxDepth) (group : String) :
    Computes (groupSubtree maxDepth group) s (s.read (s.groupSubtree maxDepth group)) := by
  have hget : Computes get s (.ok (.steady s)) := rfl
  refine hget.ok_bind.trans ?_
  cases ha : s.available with
  | true =>
    rw [Store.read_of_available ha]
    exact (computes_subtreeRun ha maxDepth _ _).ok_bind
  | false =>
    have hread : s.read (s.groupSubtree maxDepth group) = .error Store.unavailable := by
      rw [Store.read, Store.call, ha]
      rfl
    have hstep : Computes (subtreeStep maxDepth ⟨[(group, 0)], []⟩) s
        (.error Store.unavailable) := by
      have hchildren : Computes (read (·.childEdges group)) s (.error Store.unavailable) := by
        have h := computes_read (s := s) (·.childEdges group)
        rwa [Store.read, Store.call, ha] at h
      simp only [subtreeStep, List.contains_nil, Bool.false_eq_true, if_false, hd, if_true]
      exact hchildren.error_bind
    rw [hread]
    exact hstep.error_bind.error_bind

lemma performs_addInheritance {maxDepth : Nat} (hd : 0 < maxDepth) (edge : Inheritance) :
    Performs (addInheritance maxDepth edge) s (do
      Admin.checkInheritance s maxDepth edge
      Admin.giving edge (s.insertInheritance edge)) := by
  rw [Admin.checkInheritance, bind_assoc]
  refine (computes_groupSubtree hd edge.child).bind_performs fun below _ => ?_
  cases hc : below.contains edge.parent with
  | true =>
    simp only [if_true]
    rfl
  | false =>
    simp only [Bool.false_eq_true, if_false]
    exact performs_store (map_giving edge _)

end Session

namespace Admin.Operation

variable {σ : Type} [CacheService σ]

open Session

theorem outcome_session (e : Engine σ) (hd : 0 < e.maxDepth) (op : Operation) :
    outcome (op.session e.maxDepth e.freshId.1 (.steady e.store)) =
      (op.answer e, (op.act e).store) := by
  have hone : ∀ {α : Type} {p : Session Unit} {w : Except Fault (α × Store)}
      {changes : α → List Change}, Performs p e.store w → outcome (p (.steady e.store)) =
        (discard (commit e w changes).1, (commit e w changes).2.store) :=
    fun h => Eq.trans h (settled_commit e _ _)
  cases op with
  | createRole role => exact hone (performs_createRole e.maxDepth role)
  | updateRole role => exact hone (performs_updateRole e.maxDepth role)
  | setRoleParent id parent version =>
    have hp := (computes_storedRole (s := e.store) id).bind_performs fun role _ =>
      performs_updateRole e.maxDepth { role with parent := parent, version := version }
    refine Eq.trans hp ?_
    simp only [answer, act, Admin.setRoleParent]
    cases Admin.storedRole e.store id with
    | error fault => rfl
    | ok role => exact settled_commit e _ _
  | linkPermission role permission =>
    have hp : Performs (Store.Operation.insertRolePermission
        (.link e.freshId.1 role permission)).session e.freshId.2.store _ :=
      performs_store (map_giving (RolePermission.link e.freshId.1 role permission) _)
    exact Eq.trans hp (settled_commit e.freshId.2 _ _)
  | deleteRole | revokeRole | updatePermission | unlinkPermission | revokeResource
  | deleteBinding | revokeGroupRole | removeMember => exact hone (performs_store rfl)
  | assignRole row | createPermission row | grantResource row | createBinding row
  | assignGroupRole row | addMember row | putAttribute row =>
    exact hone (performs_store (map_giving row _))
  | updateBinding row => exact hone (performs_updateBinding row)
  | createGroup row => exact hone (performs_createGroup row)
  | addInheritance edge => exact hone (performs_addInheritance hd edge)

end Admin.Operation

end AccessControl
