import AccessControl.Context
import AccessControl.EffectiveRoles
import AccessControl.GroupWalk

/-!
Resolution of a principal's effective roles at one instant. Roles come from assignments (an
assignment on account of a group only while the principal is in the group and the group has the
role), from the groups the principal is in or acts for and the groups they inherit from, from the
defaults of the organization, and, apart from these, from bindings. Each of them brings in its
ancestors. Every window that is looked at bounds how long the result is valid.
-/

namespace AccessControl

structure Collected where
  roles : List EffectiveRole
  truncated : Bool
  validUntil : Option Instant

namespace Collected

def empty : Collected := ⟨[], false, none⟩

def boundBy (c : Collected) (bound : Option Instant) : Collected :=
  { c with validUntil := earliest c.validUntil bound }

def find? (c : Collected) (role : String) : Option EffectiveRole :=
  c.roles.find? fun r => r.role.id == role

def meet (c : Collected) (role : String) (via : Provenance) (depth : Nat) : Collected :=
  { c with roles := c.roles.map fun r =>
      if r.role.id == role then
        { r with
          provenance := if r.provenance.contains via then r.provenance else r.provenance ++ [via]
          depth := min r.depth depth }
      else r }

def add (c : Collected) (role : Role) (via : Provenance) (depth : Nat) : Collected :=
  { c with roles := c.roles ++ [⟨role, [via], depth⟩] }

end Collected

structure ChainWalk where
  current : Option (String × Provenance)
  depth : Nat
  chain : List String
  collected : Collected

namespace ChainWalk

def stop (w : ChainWalk) (c : Collected) : ChainWalk :=
  { w with current := none, collected := c }

def climb (w : ChainWalk) (role : String) (parent : Option String) (c : Collected) : ChainWalk where
  current := parent.map fun p => (p, .viaParent role)
  depth := w.depth + 1
  chain := role :: w.chain
  collected := c

/-- A role found before at the same depth or nearer ends the walk: its ancestors are there. -/
def step (s : Store) (maxDepth : Nat) (organization : Option String) (w : ChainWalk) :
    Option ChainWalk :=
  match w.current with
  | none => none
  | some (id, via) =>
    if maxDepth < w.depth || w.chain.contains id then
      some (w.stop { w.collected with truncated := true })
    else
      match w.collected.find? id with
      | some found =>
        let c := w.collected.meet id via w.depth
        if found.depth ≤ w.depth then some (w.stop c) else some (w.climb id found.role.parent c)
      | none =>
        match s.role? id with
        | none => some (w.stop w.collected)
        | some role =>
          if role.isLive && role.visibleTo organization then
            some (w.climb id role.parent (w.collected.add role via w.depth))
          else some (w.stop w.collected)

end ChainWalk

def Collected.withChain (s : Store) (maxDepth : Nat) (organization : Option String)
    (c : Collected) (role : String) (via : Provenance) : Collected :=
  (Walk.run (ChainWalk.step s maxDepth organization) (maxDepth + 2)
    ⟨some (role, via), 0, [], c⟩).collected

namespace Store

def groupGrants (s : Store) (group role : String) (now : Instant) : Bool × Option Instant :=
  let rows := (s.groupRolesOf group).filter fun g => g.role == role && g.isActive
  (rows.any (·.isEffective now),
    rows.foldl (fun bound g => earliest bound (g.window.nextTransition now)) none)

def memberGroups (s : Store) (principal : String) (now : Instant) : List String :=
  Text.sortedDistinct (((s.membershipsOf principal).filter (·.isEffective now)).map (·.group))

def membershipBound (s : Store) (principal : String) (now : Instant) : Option Instant :=
  (s.membershipsOf principal).foldl
    (fun bound m => earliest bound (GroupWalk.transition m.isActive m.window now)) none

def rootGroups (s : Store) (principal : String) (ctx : Context) : List String :=
  let groups := s.memberGroups principal ctx.now
  match ctx.group with
  | some g => if groups.contains g then groups else groups ++ [g]
  | none => groups

def collectUserRole (s : Store) (maxDepth : Nat) (memberGroups : List String) (ctx : Context)
    (c : Collected) (u : UserRole) : Collected :=
  let c := c.boundBy (GroupWalk.transition u.isActive u.window ctx.now)
  if u.isEffective ctx.now then
    match u.sourceGroup with
    | none => c.withChain s maxDepth ctx.organization u.role .direct
    | some g =>
      if memberGroups.contains g then
        let (granted, bound) := s.groupGrants g u.role ctx.now
        let c := c.boundBy bound
        if granted then c.withChain s maxDepth ctx.organization u.role (.viaGroup g) else c
      else c
  else c

def collectGroupRole (s : Store) (maxDepth : Nat) (ctx : Context) (group : String)
    (c : Collected) (g : GroupRole) : Collected :=
  let c := c.boundBy (GroupWalk.transition g.isActive g.window ctx.now)
  if g.isEffective ctx.now then
    c.withChain s maxDepth ctx.organization g.role (.viaGroup group)
  else c

def collectGroup (s : Store) (maxDepth : Nat) (ctx : Context) (c : Collected) (group : String) :
    Collected :=
  (s.groupRolesOf group).foldl (s.collectGroupRole maxDepth ctx group) c

def collectDefaults (s : Store) (maxDepth : Nat) (ctx : Context) (c : Collected) : Collected :=
  match ctx.organization with
  | none => c
  | some organization =>
    (s.defaultRoles organization).foldl
      (fun c r => c.withChain s maxDepth ctx.organization r.id (.viaOrganization organization)) c

def bindsTo (principal : String) (groups : List String) (b : Binding) : Bool :=
  match b.subjectType with
  | .user | .service => b.subject == principal
  | .group => groups.contains b.subject

def bindingsFor (s : Store) (principal : String) (groups : List String) (ctx : Context) :
    List Binding :=
  s.bindings.rows.filter fun b =>
    b.isActive && ctx.organization.all (· == b.organization) && bindsTo principal groups b

def boundRoles (s : Store) (maxDepth : Nat) (ctx : Context) (b : Binding) : Collected :=
  match b.role? with
  | some role => Collected.empty.withChain s maxDepth ctx.organization role (.viaBinding b.id)
  | none => .empty

def conditionalGrants (s : Store) (maxDepth : Nat) (ctx : Context) (bindings : List Binding) :
    List (ConditionalGrant × Bool) :=
  bindings.filterMap fun b =>
    let c := s.boundRoles maxDepth ctx b
    if b.role?.isSome && c.roles.isEmpty then none else some (⟨b, c.roles⟩, c.truncated)

def effectiveRoles (s : Store) (maxDepth : Nat) (principal : String) (ctx : Context) :
    EffectiveRoles :=
  let c := Collected.empty.boundBy (s.membershipBound principal ctx.now)
  let memberGroups := s.memberGroups principal ctx.now
  let c := (s.userRolesOf principal).foldl (s.collectUserRole maxDepth memberGroups ctx) c
  let walk := GroupWalk.inherited s maxDepth ctx.now (s.rootGroups principal ctx)
  let c := (c.boundBy walk.validUntil)
  let c := walk.groups.foldl (s.collectGroup maxDepth ctx) c
  let c := s.collectDefaults maxDepth ctx c
  let grants := s.conditionalGrants maxDepth ctx (s.bindingsFor principal walk.groups ctx)
  { roles := c.roles
    conditional := grants.map (·.1)
    truncated := c.truncated || walk.truncated || grants.any (·.2)
    validUntil := c.validUntil }

structure AncestorWalk where
  next : Option String
  seen : List String
  found : List Role

def ancestorStep (s : Store) (maxDepth : Nat) (w : AncestorWalk) : Option AncestorWalk :=
  match w.next with
  | none => none
  | some parent =>
    if maxDepth ≤ w.found.length || w.seen.contains parent then some { w with next := none }
    else
      match s.role? parent with
      | none => some { w with next := none }
      | some role => some ⟨role.parent, parent :: w.seen, w.found ++ [role]⟩

def ancestors (s : Store) (maxDepth : Nat) (role : String) : List Role :=
  (Walk.run (s.ancestorStep maxDepth) (maxDepth + 1)
    ⟨(s.role? role).bind (·.parent), [role], []⟩).found

structure CycleWalk where
  next : Option String
  seen : List String
  met : Bool

def cycleStep (s : Store) (child : String) (w : CycleWalk) : Option CycleWalk :=
  match w.next with
  | none => none
  | some role =>
    if role = child then some { w with next := none, met := true }
    else if w.seen.contains role then some { w with next := none }
    else some { w with next := (s.role? role).bind (·.parent), seen := role :: w.seen }

def wouldCreateCycle (s : Store) (child parent : String) : Bool :=
  (Walk.run (s.cycleStep child) (s.roles.size + 2) ⟨some parent, [], false⟩).met

def checkCycle (s : Store) (child parent : String) : Except Fault Bool :=
  if child = parent then .ok true else s.read (s.wouldCreateCycle child parent)

end Store

end AccessControl
