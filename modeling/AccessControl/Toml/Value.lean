import AccessControl.Toml.Quoted
import AccessControl.Toml.Scalar
import AccessControl.Toml.Table

/-!
Values of TOML. Arrays may run over lines, hold comments and end in a comma; tables written in line
may not.
-/

namespace AccessControl.Toml

def splitPath (path : List String) : Option (List String × String) :=
  match path.reverse with
  | [] => none
  | key :: parents => some (parents.reverse, key)

def addPair (fields : Fields) (path : List String) (d : Document) : Option Fields := do
  let (parents, key) ← splitPath path
  Fields.add parents key d .header fields

def afterWord? (word : List Char) (cs : List Char) : Option (List Char) :=
  word.isPrefixOf? cs

mutual

def scanValue (depth : Nat) : Nat → List Char → Option (Document × List Char)
  | 0, _ => none
  | fuel + 1, cs =>
    match cs with
    | [] => none
    | '[' :: rest =>
      if deepest ≤ depth then none
      else
        match skipLines rest.length rest with
        | ']' :: rest => some (.array [], rest)
        | rest => (scanItems (depth + 1) fuel [] rest).map fun (items, rest) => (.array items, rest)
    | '\x7b' :: rest =>
      if deepest ≤ depth then none
      else
        match skipSpace rest with
        | '\x7d' :: rest => some (.object [], rest)
        | rest => (scanPairs (depth + 1) fuel [] rest).map fun (fields, rest) =>
            (.object (fieldDocuments fields), rest)
    | c :: _ =>
      if c = '"' ∨ c = '\'' then (scanQuoted cs).map fun (s, rest) => (.text s, rest)
      else if c = 't' then (afterWord? ['t', 'r', 'u', 'e'] cs).map (.bool true, ·)
      else if c = 'f' then (afterWord? ['f', 'a', 'l', 's', 'e'] cs).map (.bool false, ·)
      else scanNumber cs

def scanItems (depth : Nat) : Nat → List Document → List Char →
    Option (List Document × List Char)
  | 0, _, _ => none
  | fuel + 1, items, cs =>
    match scanValue depth fuel cs with
    | none => none
    | some (d, rest) =>
      match skipLines rest.length rest with
      | ']' :: rest => some ((d :: items).reverse, rest)
      | ',' :: rest =>
        match skipLines rest.length rest with
        | ']' :: rest => some ((d :: items).reverse, rest)
        | rest => scanItems depth fuel (d :: items) rest
      | _ => none

def scanPairs (depth : Nat) : Nat → Fields → List Char → Option (Fields × List Char)
  | 0, _, _ => none
  | fuel + 1, fields, cs =>
    match scanKey cs with
    | some (path, '=' :: rest) =>
      match scanValue depth fuel (skipSpace rest) with
      | none => none
      | some (d, rest) =>
        match addPair fields path d with
        | none => none
        | some fields =>
          match skipSpace rest with
          | ',' :: rest => scanPairs depth fuel fields rest
          | '\x7d' :: rest => some (fields, rest)
          | _ => none
    | _ => none

end

end AccessControl.Toml
