import AccessControl.Json.Written

/-! Text of a JSON value for readers: one item or field a line, indented by two blanks a level. -/

namespace AccessControl.Json

def newLine (level : Nat) : List Char :=
  '\n' :: List.replicate (2 * level) ' '

mutual

def prettyChars (level : Nat) : Json → List Char
  | .array (x :: xs) =>
    '[' :: newLine (level + 1) ++ prettyChars (level + 1) x ++ prettyItems level xs
  | .object ((k, v) :: rest) =>
    '\x7b' :: newLine (level + 1) ++ writtenString k ++ ':' :: ' ' ::
      prettyChars (level + 1) v ++ prettyFields level rest
  | j => j.writtenChars

def prettyItems (level : Nat) : List Json → List Char
  | [] => newLine level ++ [']']
  | x :: xs =>
    ',' :: newLine (level + 1) ++ prettyChars (level + 1) x ++ prettyItems level xs

def prettyFields (level : Nat) : List (String × Json) → List Char
  | [] => newLine level ++ ['\x7d']
  | (k, v) :: rest =>
    ',' :: newLine (level + 1) ++ writtenString k ++ ':' :: ' ' ::
      prettyChars (level + 1) v ++ prettyFields level rest

end

def pretty (j : Json) : String :=
  String.ofList (j.prettyChars 0)

end AccessControl.Json
