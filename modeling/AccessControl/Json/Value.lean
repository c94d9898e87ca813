import AccessControl.Decimal.Written

/-!
Attribute values and documents are JSON values. Whole numbers and floating-point numbers are
different values even where they are equal as numbers. An object is canonical when its keys are
strictly increasing.
-/

namespace AccessControl

inductive Number where
  | integer (value : Int)
  | double (bits : UInt64)
deriving DecidableEq, Repr, Inhabited

inductive Json where
  | null
  | bool (value : Bool)
  | number (value : Number)
  | string (value : String)
  | array (items : List Json)
  | object (fields : List (String × Json))
deriving Repr, Inhabited

def Number.same : Number → Number → Bool
  | .integer a, .integer b => a == b
  | .double a, .double b =>
    a == b || (a &&& 0x7FFFFFFFFFFFFFFF == 0 && b &&& 0x7FFFFFFFFFFFFFFF == 0)
  | _, _ => false

namespace Json

mutual

def same : Json → Json → Bool
  | .null, .null => true
  | .bool a, .bool b => a == b
  | .number a, .number b => a.same b
  | .string a, .string b => a == b
  | .array xs, .array ys => sameItems xs ys
  | .object xs, .object ys => sameFields xs ys
  | _, _ => false

def sameItems : List Json → List Json → Bool
  | [], [] => true
  | x :: xs, y :: ys => x.same y && sameItems xs ys
  | _, _ => false

def sameFields : List (String × Json) → List (String × Json) → Bool
  | [], [] => true
  | (j, x) :: xs, (k, y) :: ys => j == k && x.same y && sameFields xs ys
  | _, _ => false

end

mutual

def Canonical : Json → Prop
  | .array items => CanonicalItems items
  | .object fields => (fields.map (·.1)).Pairwise (· < ·) ∧ CanonicalFields fields
  | _ => True

def CanonicalItems : List Json → Prop
  | [] => True
  | x :: xs => x.Canonical ∧ CanonicalItems xs

def CanonicalFields : List (String × Json) → Prop
  | [] => True
  | (_, x) :: xs => x.Canonical ∧ CanonicalFields xs

end

def putField (key : String) (value : Json) : List (String × Json) → List (String × Json)
  | [] => [(key, value)]
  | (k, v) :: rest =>
    if key < k then (key, value) :: (k, v) :: rest
    else if key = k then (key, value) :: rest
    else (k, v) :: putField key value rest

def orderFields (fields : List (String × Json)) : List (String × Json) :=
  fields.foldl (fun out f => putField f.1 f.2 out) []

mutual

def canonical : Json → Json
  | .array items => .array (canonicalItems items)
  | .object fields => .object (orderFields (canonicalFields fields))
  | j => j

def canonicalItems : List Json → List Json
  | [] => []
  | x :: xs => x.canonical :: canonicalItems xs

def canonicalFields : List (String × Json) → List (String × Json)
  | [] => []
  | (k, x) :: xs => (k, x.canonical) :: canonicalFields xs

end

def nat (n : Nat) : Json := .number (.integer n)

def field? (key : String) (write : α → Json) : Option α → List (String × Json)
  | none => []
  | some value => [(key, write value)]

end Json

end AccessControl
