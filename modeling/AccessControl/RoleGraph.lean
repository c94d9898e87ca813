import AccessControl.Role
import AccessControl.Table
import AccessControl.Store
import AccessControl.Walk

/-!
The graph of live roles and their parents, for the questions that are asked before a role gets a new
parent, and for the tree that is shown. A parent that is not a live role does not count. The data
may hold cycles; every walk is bounded by the number of roles.
-/

namespace AccessControl

inductive GraphFault where
  | circular (role : String)
  | unknown (role : String)
deriving DecidableEq, Repr

def GraphFault.message : GraphFault → String
  | .circular role => "Circular role parentage: " ++ role
  | .unknown role => "Unknown role: " ++ role

inductive RoleTree where
  | node (role : Role) (children : List RoleTree)

namespace RoleTree

def role : RoleTree → Role
  | node role _ => role

mutual

def json : RoleTree → Json
  | node role children => .object [("role", role.json), ("children", .array (jsons children))]

def jsons : List RoleTree → List Json
  | [] => []
  | t :: ts => t.json :: jsons ts

end

def byName (trees : List RoleTree) : List RoleTree :=
  trees.mergeSort fun a b => a.role.name ≤ b.role.name

end RoleTree

structure RoleGraph where
  roles : Table Role

namespace RoleGraph

def ofRoles (roles : List Role) : RoleGraph :=
  ⟨.ofList (roles.filter (·.isLive))⟩

def size (g : RoleGraph) : Nat := g.roles.size

def contains (g : RoleGraph) (role : String) : Bool := g.roles.contains role

def parent? (g : RoleGraph) (role : String) : Option String :=
  ((g.roles.get? role).bind (·.parent)).filter g.contains

def children (g : RoleGraph) (role : String) : List Role :=
  g.roles.rows.filter fun r => r.parent == some role

structure Climb where
  current : Option String
  depth : Nat

/-- Climbs one parent; a climb longer than the number of roles is going round. -/
def climbStep (g : RoleGraph) (c : Climb) : Option Climb :=
  match c.current.bind g.parent? with
  | none => none
  | some parent =>
    if g.size < c.depth + 1 then none else some ⟨some parent, c.depth + 1⟩

def depthOf (g : RoleGraph) (role : String) : Except GraphFault Nat :=
  if g.contains role then
    let top := Walk.run g.climbStep (g.size + 1) ⟨some role, 0⟩
    match top.current.bind g.parent? with
    | none => .ok top.depth
    | some _ => .error (.circular role)
  else .error (.unknown role)

structure Descent where
  pending : List (String × Nat)
  height : Nat

def descentStep (g : RoleGraph) (d : Descent) : Option Descent :=
  match d.pending with
  | [] => none
  | (role, level) :: rest =>
    if g.size < level then none
    else
      let below :=
        if g.contains role then (g.children role).reverse.map fun c => (c.id, level + 1) else []
      some ⟨below ++ rest, max d.height level⟩

def heightBelow (g : RoleGraph) (role : String) : Nat :=
  (Walk.run g.descentStep (g.size * (g.size + 1) + 1) ⟨[(role, 0)], 0⟩).height

structure Ascent where
  current : Option String
  steps : Nat
  met : Bool

def ascentStep (g : RoleGraph) (child : String) (a : Ascent) : Option Ascent :=
  match a.current with
  | none => none
  | some role =>
    if role = child then some { a with current := none, met := true }
    else if g.size < a.steps + 1 then some { a with current := none }
    else some ⟨g.parent? role, a.steps + 1, false⟩

def wouldCreateCycle (g : RoleGraph) (child parent : String) : Bool :=
  (Walk.run (g.ascentStep child) (g.size + 2) ⟨some parent, 0, false⟩).met

def chainDepthWithParent (g : RoleGraph) (child parent : String) : Except GraphFault Nat := do
  let above ← g.depthOf parent
  .ok (above + 1 + g.heightBelow child)

def build (g : RoleGraph) : Nat → Role → RoleTree
  | 0, role => .node role []
  | levels + 1, role => .node role (RoleTree.byName ((g.children role.id).map (g.build levels)))

def tree (g : RoleGraph) : List RoleTree :=
  let roots := g.roles.rows.filter fun r => (g.parent? r.id).isNone
  (roots.mergeSort fun a b => a.name ≤ b.name).map (g.build g.size)

end RoleGraph

end AccessControl
