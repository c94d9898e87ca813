import AccessControl.Toml.Value

/-!
TOML text as a document: lines that are blank, headers of tables, and pairs of a key and a value
that go into the table that was opened last.
-/

namespace AccessControl.Toml

structure Reading where
  root : Fields
  opened : List String

namespace Reading

def header (r : Reading) (cs : List Char) : Option (Reading × List Char) := do
  let (path, rest) ← scanKey cs
  match rest with
  | ']' :: rest => pure (⟨← r.root.openTable path, path⟩, ← afterLine? rest)
  | _ => none

def arrayHeader (r : Reading) (cs : List Char) : Option (Reading × List Char) := do
  let (path, rest) ← scanKey cs
  match rest with
  | ']' :: ']' :: rest => pure (⟨← r.root.appendTable path, path⟩, ← afterLine? rest)
  | _ => none

def pair (r : Reading) (cs : List Char) : Option (Reading × List Char) := do
  let (path, rest) ← scanKey cs
  match rest with
  | '=' :: rest =>
    let rest := skipSpace rest
    let (d, rest) ← scanValue 0 (2 * rest.length + 2) rest
    let (parents, key) ← splitPath path
    pure (⟨← r.root.addWithin r.opened parents key d, r.opened⟩, ← afterLine? rest)
  | _ => none

def lines (r : Reading) : Nat → List Char → Option Reading
  | 0, _ => none
  | fuel + 1, cs =>
    match skipSpace cs with
    | [] => some r
    | '[' :: '[' :: rest => (r.arrayHeader rest).bind fun (r, rest) => r.lines fuel rest
    | '[' :: rest => (r.header rest).bind fun (r, rest) => r.lines fuel rest
    | c :: rest =>
      if c = '#' ∨ c = '\n' ∨ c = '\r' then (afterLine? (c :: rest)).bind (r.lines fuel)
      else (r.pair (c :: rest)).bind fun (r, rest) => r.lines fuel rest

end Reading

def afterMark (cs : List Char) : List Char :=
  match cs with
  | c :: rest => if c.toNat = 0xFEFF then rest else cs
  | [] => []

def ofText? (s : String) : Option Document :=
  let cs := afterMark s.toList
  (Reading.lines ⟨[], []⟩ (cs.length + 1) cs).map fun r => .object (fieldDocuments r.root)

end AccessControl.Toml
