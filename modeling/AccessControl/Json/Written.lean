import AccessControl.Json.Value

/-!
Compact text of a JSON value: no blanks, fields in their order, and in strings nothing escaped but
the quote, the backslash and the control characters.
-/

namespace AccessControl

def Number.written : Number → String
  | .integer n => toString n
  | .double bits => Decimal.attributeLayout.write bits

namespace Json

def escapedControl (n : Nat) : List Char :=
  if n = 8 then ['\\', 'b']
  else if n = 9 then ['\\', 't']
  else if n = 10 then ['\\', 'n']
  else if n = 12 then ['\\', 'f']
  else if n = 13 then ['\\', 'r']
  else ['\\', 'u', '0', '0', Nat.digitChar (n / 16), Nat.digitChar (n % 16)]

def escapedChar (c : Char) : List Char :=
  if c = '"' then ['\\', '"']
  else if c = '\\' then ['\\', '\\']
  else if c.toNat < 0x20 then escapedControl c.toNat
  else [c]

def writtenString (s : String) : List Char :=
  '"' :: s.toList.flatMap escapedChar ++ ['"']

mutual

def writtenChars : Json → List Char
  | .null => ['n', 'u', 'l', 'l']
  | .bool true => ['t', 'r', 'u', 'e']
  | .bool false => ['f', 'a', 'l', 's', 'e']
  | .number n => n.written.toList
  | .string s => writtenString s
  | .array [] => ['[', ']']
  | .array (x :: xs) => '[' :: writtenChars x ++ writtenItems xs
  | .object [] => ['\x7b', '\x7d']
  | .object ((k, v) :: rest) =>
    '\x7b' :: writtenString k ++ ':' :: writtenChars v ++ writtenFields rest

def writtenItems : List Json → List Char
  | [] => [']']
  | x :: xs => ',' :: writtenChars x ++ writtenItems xs

def writtenFields : List (String × Json) → List Char
  | [] => ['\x7d']
  | (k, v) :: rest => ',' :: writtenString k ++ ':' :: writtenChars v ++ writtenFields rest

end

def written (j : Json) : String :=
  String.ofList j.writtenChars

end Json

end AccessControl
