import AccessControl.Cache.Evaluation
import AccessControl.Change
import AccessControl.GroupWalk

/-!
What a change makes stale in the evaluation cache. Some of it follows from the change alone, the
rest from the rows that the store has after the change. A role reaches whatever names it; a
principal, a group or a permission also reaches what never named any role.
-/

namespace AccessControl

inductive Stale where
  | role (id : String)
  | principal (id : String)
  | group (id : String)
  | everything
deriving DecidableEq, Repr

def Stale.drop {σ : Type} [CacheService σ] (c : σ) : Stale → Nat × σ
  | .role id => EvaluationCache.invalidateRole c id
  | .principal id => EvaluationCache.invalidatePrincipal c id
  | .group id => EvaluationCache.invalidateGroup c id
  | .everything => EvaluationCache.invalidateEverything c

def Stale.dropAll {σ : Type} [CacheService σ] (c : σ) (items : List Stale) : Nat × σ :=
  items.foldl (fun (n, c) item =>
    let (m, c) := Stale.drop c item
    (n + m, c)) (0, c)

structure StaleSet where
  known : List Stale
  asked : Option (List Stale)

namespace Store

def staleSubtree (s : Store) (maxDepth : Nat) (group : String) : List Stale :=
  (s.groupSubtree maxDepth group).map .group ++
    (s.principalsInSubtree maxDepth group).map .principal

def staleSubject (s : Store) (maxDepth : Nat) (type : BindingSubject) (subject : String) :
    List Stale :=
  match type with
  | .user | .service => [.principal subject]
  | .group => s.staleSubtree maxDepth subject

def rolesOfPermission (s : Store) (permission : String) : List String :=
  Text.sortedDistinct ((s.linksOfPermission permission).map (·.role))

def stalePermission (s : Store) (permission : String) : List Stale :=
  (s.rolesOfPermission permission).map .role

def staleBinding (s : Store) (maxDepth : Nat) (type : BindingSubject) (subject : String) :
    BindingTarget → StaleSet
  | .role role =>
    match type with
    | .user | .service => ⟨[.role role, .principal subject], none⟩
    | .group => ⟨[.role role], some (s.staleSubtree maxDepth subject)⟩
  | .permission permission =>
    ⟨[], some (s.stalePermission permission ++ s.staleSubject maxDepth type subject)⟩

/-- A default role reaches principals whose role sets have never named it. -/
def stale (s : Store) (maxDepth : Nat) : Change → StaleSet
  | .role role =>
    ⟨[.role role], some (if (s.role? role).any (·.isDefault) then [.everything] else [])⟩
  | .permission permission =>
    ⟨[], some (s.stalePermission permission ++
      (s.bindingsOfTarget (.permission permission)).flatMap fun b =>
        s.staleSubject maxDepth b.subjectType b.subject)⟩
  | .rolePermission role _ => ⟨[.role role], none⟩
  | .resourcePermission role => ⟨[.role role], none⟩
  | .binding type subject target => s.staleBinding maxDepth type subject target
  | .groupRole group role => ⟨[.role role], some (s.staleSubtree maxDepth group)⟩
  | .membership group principal => ⟨[.principal principal, .group group], none⟩
  | .inheritance _ child => ⟨[], some (s.staleSubtree maxDepth child)⟩
  | .userRole principal _ => ⟨[.principal principal], none⟩
  | .attributes subject => ⟨[.principal subject], none⟩

end Store

end AccessControl
