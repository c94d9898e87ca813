import AccessControl.Store
import AccessControl.Text.Sorted
import AccessControl.Walk

/-!
Walks over group inheritance. Upward, from the groups a principal belongs to, to every group whose
grants it inherits; downward, from a group to every group that inherits from it. Both are breadth
first, visit a group once and stop at a depth limit. The upward walk uses edges that are effective
and stays within one organization; the downward walk takes every edge.
-/

namespace AccessControl

structure GroupVisit where
  group : String
  depth : Nat
  organization : Option String
deriving DecidableEq, Repr

structure GroupWalk where
  queue : List GroupVisit
  seen : List String
  groups : List String
  truncated : Bool
  validUntil : Option Instant

namespace GroupWalk

def transition (isActive : Bool) (window : TimeWindow) (now : Instant) : Option Instant :=
  if isActive then window.nextTransition now else none

def admissible (group : Group) (organization : Option String) : Bool :=
  group.isActive && organization.all (· == group.organization)

def step (s : Store) (maxDepth : Nat) (now : Instant) (w : GroupWalk) : Option GroupWalk :=
  match w.queue with
  | [] => none
  | v :: queue =>
    if maxDepth < v.depth then some { w with queue := queue, truncated := true }
    else if w.seen.contains v.group then some { w with queue := queue }
    else
      let w := { w with queue := queue, seen := v.group :: w.seen }
      match s.group? v.group with
      | none => some w
      | some group =>
        if admissible group v.organization then
          let edges := s.parentEdges group.id
          let parents := (edges.filter (·.isEffective now)).map fun e =>
            ⟨e.parent, v.depth + 1, some group.organization⟩
          some { w with
            queue := queue ++ parents
            groups := w.groups ++ [group.id]
            validUntil := edges.foldl
              (fun bound e => earliest bound (transition e.isActive e.window now)) w.validUntil }
        else some w

def empty : GroupWalk := ⟨[], [], [], false, none⟩

def fromRoot (s : Store) (maxDepth : Nat) (now : Instant) (w : GroupWalk) (root : String) :
    GroupWalk :=
  Walk.run (step s maxDepth now) (s.inheritance.length + 1) { w with queue := [⟨root, 0, none⟩] }

def inherited (s : Store) (maxDepth : Nat) (now : Instant) (roots : List String) : GroupWalk :=
  roots.foldl (fromRoot s maxDepth now) empty

end GroupWalk

structure SubtreeWalk where
  queue : List (String × Nat)
  found : List String

namespace SubtreeWalk

def step (s : Store) (maxDepth : Nat) (w : SubtreeWalk) : Option SubtreeWalk :=
  match w.queue with
  | [] => none
  | (group, depth) :: queue =>
    if w.found.contains group then some { w with queue := queue }
    else
      let children :=
        if depth < maxDepth then (s.childEdges group).map fun e => (e.child, depth + 1) else []
      some ⟨queue ++ children, w.found ++ [group]⟩

end SubtreeWalk

namespace Store

def groupSubtree (s : Store) (maxDepth : Nat) (group : String) : List String :=
  (Walk.run (SubtreeWalk.step s maxDepth) (s.inheritance.length + 1) ⟨[(group, 0)], []⟩).found

def principalsInSubtree (s : Store) (maxDepth : Nat) (group : String) : List String :=
  Text.sortedDistinct <|
    (s.groupSubtree maxDepth group).flatMap fun g => (s.membersOf g).map (·.principal)

end Store

end AccessControl
