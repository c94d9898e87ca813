import AccessControl.Json.NumberText
import AccessControl.Json.Written

/-!
Documents: JSON text taken apart, before it is known what the text should hold. A document keeps
fields in their order and keeps a key that is given twice. Parts that no reader can use (a number
out of range, a string with half a surrogate pair, containers nested too deep) stay in place as
unreadable, so that they only matter where they are read.
-/

namespace AccessControl

inductive Document where
  | unreadable
  | null
  | bool (value : Bool)
  | number (value : Number)
  | text (value : String)
  | array (items : List Document)
  | object (fields : List (String × Document))
deriving Repr, Inhabited

namespace Document

def deepest : Nat := 127

def skipBlank (cs : List Char) : List Char :=
  cs.dropWhile fun c => c == ' ' || c == '\n' || c == '\t' || c == '\r'

def hexValue? (c : Char) : Option Nat :=
  if '0' ≤ c ∧ c ≤ '9' then some (c.toNat - '0'.toNat)
  else if 'a' ≤ c ∧ c ≤ 'f' then some (c.toNat - 'a'.toNat + 10)
  else if 'A' ≤ c ∧ c ≤ 'F' then some (c.toNat - 'A'.toNat + 10)
  else none

def hexUnit? (a b c d : Char) : Option Nat := do
  pure ((← hexValue? a) * 4096 + (← hexValue? b) * 256 + (← hexValue? c) * 16 + (← hexValue? d))

def shortEscape? (c : Char) : Option Nat :=
  if c = '"' ∨ c = '\\' ∨ c = '/' then some c.toNat
  else if c = 'b' then some 8
  else if c = 'f' then some 12
  else if c = 'n' then some 10
  else if c = 'r' then some 13
  else if c = 't' then some 9
  else none

def scanUnits (units : List Nat) : List Char → Option (List Nat × List Char)
  | [] => none
  | '"' :: rest => some (units, rest)
  | '\\' :: 'u' :: a :: b :: c :: d :: rest =>
    match hexUnit? a b c d with
    | some n => scanUnits (n :: units) rest
    | none => none
  | '\\' :: c :: rest =>
    match shortEscape? c with
    | some n => scanUnits (n :: units) rest
    | none => none
  | c :: rest => if c.toNat < 0x20 ∨ c = '\\' then none else scanUnits (c.toNat :: units) rest

def isLeading (n : Nat) : Bool := 0xD800 ≤ n && n ≤ 0xDBFF
def isTrailing (n : Nat) : Bool := 0xDC00 ≤ n && n ≤ 0xDFFF

def joinUnits (chars : List Char) : List Nat → Option (List Char)
  | [] => some chars
  | n :: rest =>
    if isTrailing n then
      match rest with
      | m :: rest =>
        if isLeading m then
          joinUnits (Char.ofNat (0x10000 + (m - 0xD800) * 0x400 + (n - 0xDC00)) :: chars) rest
        else none
      | [] => none
    else if isLeading n then none
    else joinUnits (Char.ofNat n :: chars) rest

def scanString (cs : List Char) : Option (Option String × List Char) := do
  let (units, rest) ← scanUnits [] cs
  pure ((joinUnits [] units).map String.ofList, rest)

def afterWord? : List Char → List Char → Option (List Char)
  | [], cs => some cs
  | w :: ws, c :: cs => if w = c then afterWord? ws cs else none
  | _ :: _, [] => none

def nested (depth : Nat) (d : Document) : Document :=
  if depth ≤ deepest then d else unreadable

mutual

def scanValue (depth : Nat) : Nat → List Char → Option (Document × List Char)
  | 0, _ => none
  | fuel + 1, cs =>
    match skipBlank cs with
    | [] => none
    | '"' :: rest =>
      match scanString rest with
      | some (some s, r) => some (text s, r)
      | some (none, r) => some (unreadable, r)
      | none => none
    | '[' :: rest =>
      match skipBlank rest with
      | ']' :: r => some (nested (depth + 1) (array []), r)
      | r => (scanItems (depth + 1) fuel [] r).map fun (items, r) =>
          (nested (depth + 1) (array items), r)
    | '\x7b' :: rest =>
      match skipBlank rest with
      | '\x7d' :: r => some (nested (depth + 1) (object []), r)
      | r => (scanFields (depth + 1) fuel (some []) r).map fun (fields, r) =>
          (match fields with
            | some fields => nested (depth + 1) (object fields)
            | none => unreadable, r)
    | 't' :: rest => (afterWord? ['r', 'u', 'e'] rest).map (bool true, ·)
    | 'f' :: rest => (afterWord? ['a', 'l', 's', 'e'] rest).map (bool false, ·)
    | 'n' :: rest => (afterWord? ['u', 'l', 'l'] rest).map (null, ·)
    | cs =>
      match NumberText.scan cs with
      | some (t, r) => some ((t.value.map number).getD unreadable, r)
      | none => none

def scanItems (depth : Nat) : Nat → List Document → List Char →
    Option (List Document × List Char)
  | 0, _, _ => none
  | fuel + 1, items, cs =>
    match scanValue depth fuel cs with
    | some (d, r) =>
      match skipBlank r with
      | ',' :: r => scanItems depth fuel (d :: items) r
      | ']' :: r => some ((d :: items).reverse, r)
      | _ => none
    | none => none

def scanFields (depth : Nat) : Nat → Option (List (String × Document)) → List Char →
    Option (Option (List (String × Document)) × List Char)
  | 0, _, _ => none
  | fuel + 1, fields, cs =>
    match skipBlank cs with
    | '"' :: rest =>
      match scanString rest with
      | some (key, r) =>
        match skipBlank r with
        | ':' :: r =>
          match scanValue depth fuel r with
          | some (d, r) =>
            let fields := match key, fields with
              | some key, some fields => some ((key, d) :: fields)
              | _, _ => none
            match skipBlank r with
            | ',' :: r => scanFields depth fuel fields r
            | '\x7d' :: r => some (fields.map List.reverse, r)
            | _ => none
          | none => none
        | _ => none
      | none => none
    | _ => none

end

def scan? (s : String) : Option (Document × List Char) :=
  let cs := s.toList
  scanValue 0 (2 * cs.length + 2) cs

def onlyBlank (cs : List Char) : Bool :=
  (skipBlank cs).isEmpty

def ofText? (s : String) : Option Document :=
  match scan? s with
  | some (d, rest) => if onlyBlank rest then some d else none
  | none => none

mutual

def value? : Document → Option Json
  | unreadable => none
  | null => some .null
  | bool b => some (.bool b)
  | number n => some (.number n)
  | text s => some (.string s)
  | array items => (itemValues? items).map .array
  | object fields => (fieldValues? fields).map fun fs => .object (Json.orderFields fs)

def itemValues? : List Document → Option (List Json)
  | [] => some []
  | d :: ds =>
    match d.value?, itemValues? ds with
    | some j, some js => some (j :: js)
    | _, _ => none

def fieldValues? : List (String × Document) → Option (List (String × Json))
  | [] => some []
  | (k, d) :: ds =>
    match d.value?, fieldValues? ds with
    | some j, some js => some ((k, j) :: js)
    | _, _ => none

end

end Document

namespace Json

mutual

def document : Json → Document
  | .null => .null
  | .bool b => .bool b
  | .number n => .number n
  | .string s => .text s
  | .array items => .array (itemDocuments items)
  | .object fields => .object (fieldDocuments fields)

def itemDocuments : List Json → List Document
  | [] => []
  | j :: js => j.document :: itemDocuments js

def fieldDocuments : List (String × Json) → List (String × Document)
  | [] => []
  | (k, j) :: js => (k, j.document) :: fieldDocuments js

end

def ofText? (s : String) : Option Json :=
  (Document.ofText? s).bind Document.value?

end Json

end AccessControl
