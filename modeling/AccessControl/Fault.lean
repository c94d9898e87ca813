/-! Why an operation fails. -/

namespace AccessControl

inductive Entity where
  | role
  | permission
  | resourcePermission
  | binding
deriving DecidableEq, Repr

def Entity.name : Entity → String
  | .role => "role"
  | .permission => "permission"
  | .resourcePermission => "resource permission"
  | .binding => "binding"

inductive Fault where
  | validation (text : String)
  | notFound (entity : Entity) (id : String)
  | conflict (entity : Entity) (id : String) (expected found : Nat)
  | cycleOrDepth (role : String) (depth : Nat)
  | store (text : String)
  | cache (text : String)
  | config (text : String)
  | malformed
  | file (text : String)
deriving DecidableEq, Repr

namespace Fault

def message : Fault → String
  | validation text => "Validation failed: " ++ text
  | notFound entity id => entity.name ++ " not found: " ++ id
  | conflict entity id expected found =>
    "Concurrent modification of " ++ entity.name ++ " " ++ id ++ ": expected version " ++
      toString expected ++ ", found " ++ toString found
  | cycleOrDepth role depth =>
    "Cycle or depth ceiling exceeded at role " ++ role ++ " (depth " ++ toString depth ++ ")"
  | store text => "Store error: " ++ text
  | cache text => "Cache error: " ++ text
  | config text => "Configuration error: " ++ text
  | malformed => "Serialization error"
  | file text => "I/O error: " ++ text

def noSuchFile : String := "No such file or directory (os error 2)"

def isConflict : Fault → Bool
  | conflict .. => true
  | _ => false

end Fault

end AccessControl
