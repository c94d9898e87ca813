import AccessControl.Json.Document

/-!
Records in documents. A record is an object whose declared fields are each given at most once, or
an array of the declared fields in their order, with the last ones left out. Fields that are not
declared are passed over.
-/

namespace AccessControl

structure Record where
  given : List (String × Document)
  positional : Bool

namespace Document

def onceEach (names : List String) (fields : List (String × Document)) : Bool :=
  names.all fun name => (fields.filter fun f => f.1 == name).length ≤ 1

def record? (names : List String) : Document → Option Record
  | object fields => if onceEach names fields then some ⟨fields, false⟩ else none
  | array items => if items.length ≤ names.length then some ⟨names.zip items, true⟩ else none
  | _ => none

def flatRecord? (names : List String) : Document → Option Record
  | object fields =>
    if onceEach names fields &&
        (fields.filter fun f => !names.contains f.1).all (fun f => f.2.value?.isSome) then
      some ⟨fields, false⟩
    else none
  | _ => none

def text? : Document → Option String
  | text s => some s
  | _ => none

def bool? : Document → Option Bool
  | bool b => some b
  | _ => none

def natBelow? (bound : Nat) : Document → Option Nat
  | number (.integer n) => if 0 ≤ n ∧ n < bound then some n.toNat else none
  | _ => none

def word? : Document → Option Nat := natBelow? Word.bound

def allOf? (read : Document → Option α) : List Document → Option (List α)
  | [] => some []
  | d :: ds =>
    match read d, allOf? read ds with
    | some a, some as => some (a :: as)
    | _, _ => none

def list? (read : Document → Option α) : Document → Option (List α)
  | array items => allOf? read items
  | _ => none

def orNull? (read : Document → Option α) : Document → Option (Option α)
  | null => some none
  | d => (read d).map some

def choice? (words : List (String × α)) : Document → Option α
  | text s => words.lookup s
  | object [(s, null)] => words.lookup s
  | _ => none

def tagged? (tag : String) : Document → Option (String × Document)
  | object fields =>
    let rest := fields.filter fun f => !(f.1 == tag)
    if onceEach [tag] fields && rest.all (fun f => f.2.value?.isSome) then
      match fields.lookup tag with
      | some (text kind) => some (kind, object rest)
      | _ => none
    else none
  | array (text kind :: rest) =>
    if rest.all (fun d => d.value?.isSome) then some (kind, array rest) else none
  | _ => none

def isBare : Document → Bool
  | object _ => true
  | array items => items.isEmpty
  | _ => false

end Document

namespace Record

def get? (r : Record) (name : String) : Option Document :=
  r.given.lookup name

def required (r : Record) (name : String) (read : Document → Option α) : Option α :=
  (r.get? name).bind read

def withDefault (r : Record) (name : String) (read : Document → Option α) (default : α) :
    Option α :=
  match r.get? name with
  | some d => read d
  | none => some default

def optional (r : Record) (name : String) (read : Document → Option α) : Option (Option α) :=
  r.withDefault name (Document.orNull? read) none

def nullable (r : Record) (name : String) (read : Document → Option α) : Option (Option α) :=
  if r.positional then r.required name (Document.orNull? read) else r.optional name read

end Record

end AccessControl
