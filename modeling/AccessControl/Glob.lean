/-!
Key patterns: a star stands for any text without a line feed, every other character for itself. A
pattern is matched against the whole key by a set of positions in the key: those up to which the key
agrees with the pattern read so far.
-/

namespace AccessControl

/-- Whether the place before a key's first character is reached, and the key's characters, each with
whether the place after it is reached. -/
structure Reached where
  start : Bool
  rest : List (Char × Bool)

namespace Reached

def literal (c : Char) (r : Reached) : Reached :=
  ⟨false, go r.start r.rest⟩
where
  go : Bool → List (Char × Bool) → List (Char × Bool)
  | _, [] => []
  | before, (k, here) :: rest => (k, before && k == c) :: go here rest

def star (r : Reached) : Reached :=
  ⟨r.start, go r.start r.rest⟩
where
  go : Bool → List (Char × Bool) → List (Char × Bool)
  | _, [] => []
  | before, (k, here) :: rest =>
    let here := here || (before && k != '\n')
    (k, here) :: go here rest

def step (r : Reached) (c : Char) : Reached :=
  if c = '*' then r.star else r.literal c

def atEnd (r : Reached) : Bool :=
  (r.rest.getLast?.map (·.2)).getD r.start

end Reached

def globMatches (pattern key : String) : Bool :=
  (pattern.toList.foldl Reached.step ⟨true, key.toList.map fun k => (k, false)⟩).atEnd

end AccessControl
