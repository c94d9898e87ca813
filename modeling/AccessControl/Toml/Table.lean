import AccessControl.Json.Document

/-!
Tables under construction. A table remembers how it came to be, since that decides whether it may be
opened once more: one that only lies on the path of a header may still get a header of its own, and
one made by a key with points may only grow by such keys.
-/

namespace AccessControl.Toml

inductive Origin where
  | header
  | headerPath
  | keyPath
deriving DecidableEq, Repr

inductive Node where
  | value (d : Document)
  | table (origin : Origin) (fields : List (String × Node))
  | tables (items : List (List (String × Node)))

abbrev Fields := List (String × Node)

namespace Fields

def put (key : String) (node : Node) : Fields → Fields
  | [] => [(key, node)]
  | (k, n) :: rest => if k == key then (key, node) :: rest else (k, n) :: put key node rest

def within (byKeys : Bool) (change : Origin → Fields → Option Fields) :
    List String → Origin → Fields → Option Fields
  | [], origin, fields => change origin fields
  | key :: path, _, fields =>
    match fields.lookup key with
    | none =>
      let origin := if byKeys then Origin.keyPath else .headerPath
      (within byKeys change path origin []).map fun inner => fields.put key (.table origin inner)
    | some (.value _) => none
    | some (.tables items) =>
      match items.reverse with
      | [] => none
      | last :: before =>
        (within byKeys change path .header last).map fun inner =>
          fields.put key (.tables (before.reverse ++ [inner]))
    | some (.table origin inner) =>
      if byKeys ∧ origin = .header then none
      else
        (within byKeys change path origin inner).map fun inner =>
          fields.put key (.table origin inner)

def addHere (direct : Bool) (key : String) (d : Document) (origin : Origin) (fields : Fields) :
    Option Fields :=
  if (origin == .keyPath) == direct then none
  else
    match fields.lookup key with
    | some _ => none
    | none => some (fields.put key (.value d))

def add (path : List String) (key : String) (d : Document) (origin : Origin) (fields : Fields) :
    Option Fields :=
  within true (addHere path.isEmpty key d) path origin fields

def openHere (key : String) (fields : Fields) : Option Fields :=
  match fields.lookup key with
  | none => some (fields.put key (.table .header []))
  | some (.table .headerPath inner) => some (fields.put key (.table .header inner))
  | some _ => none

def appendHere (key : String) (fields : Fields) : Option Fields :=
  match fields.lookup key with
  | none => some (fields.put key (.tables [[]]))
  | some (.tables items) => some (fields.put key (.tables (items ++ [[]])))
  | some _ => none

def openTable (path : List String) (fields : Fields) : Option Fields :=
  match path.reverse with
  | [] => none
  | key :: parents => within false (fun _ => openHere key) parents.reverse .header fields

def appendTable (path : List String) (fields : Fields) : Option Fields :=
  match path.reverse with
  | [] => none
  | key :: parents => within false (fun _ => appendHere key) parents.reverse .header fields

def addWithin (opened path : List String) (key : String) (d : Document) (fields : Fields) :
    Option Fields :=
  within false (add path key d) opened .header fields

end Fields

mutual

def Node.document : Node → Document
  | .value d => d
  | .table _ fields => .object (fieldDocuments fields)
  | .tables items => .array (itemDocuments items)

def fieldDocuments : List (String × Node) → List (String × Document)
  | [] => []
  | (key, node) :: rest => (key, node.document) :: fieldDocuments rest

def itemDocuments : List (List (String × Node)) → List Document
  | [] => []
  | fields :: rest => .object (fieldDocuments fields) :: itemDocuments rest

end

end AccessControl.Toml
