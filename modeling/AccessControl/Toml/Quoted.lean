import AccessControl.Json.Document
import AccessControl.Toml.Space

/-!
Quoted text in TOML: basic strings with escapes between double quotes, literal strings between
single quotes, and the same between three quotes for text of many lines. A line end right after the
three opening quotes is not part of the text.
-/

namespace AccessControl.Toml

def scalar? (digits : List Char) : Option Char := do
  let values ← digits.mapM Document.hexValue?
  let n := values.foldl (fun n d => n * 16 + d) 0
  if n.isValidChar then some (Char.ofNat n) else none

def shortEscape? (c : Char) : Option Char :=
  if c = '"' ∨ c = '\\' then some c
  else if c = 'b' then some (Char.ofNat 8)
  else if c = 'f' then some (Char.ofNat 12)
  else if c = 'n' then some '\n'
  else if c = 'r' then some '\r'
  else if c = 't' then some '\t'
  else none

def scanEscape : List Char → Option (Char × List Char)
  | 'u' :: rest =>
    if rest.length < 4 then none else (scalar? (rest.take 4)).map (·, rest.drop 4)
  | 'U' :: rest =>
    if rest.length < 8 then none else (scalar? (rest.take 8)).map (·, rest.drop 8)
  | c :: rest => (shortEscape? c).map (·, rest)
  | [] => none

def scanBasic : Nat → List Char → List Char → Option (String × List Char)
  | 0, _, _ => none
  | fuel + 1, read, cs =>
    match cs with
    | [] => none
    | '"' :: rest => some (String.ofList read.reverse, rest)
    | '\\' :: rest =>
      match scanEscape rest with
      | some (c, rest) => scanBasic fuel (c :: read) rest
      | none => none
    | c :: rest => if isPlain c then scanBasic fuel (c :: read) rest else none

def scanLiteral (cs : List Char) : Option (String × List Char) :=
  let isText (c : Char) := isPlain c && c != '\''
  match cs.dropWhile isText with
  | '\'' :: rest => some (String.ofList (cs.takeWhile isText), rest)
  | _ => none

def skipFolded (fuel : Nat) (cs : List Char) : Option (List Char) :=
  (afterNewline? (skipSpace cs)).map (go fuel)
where
  go : Nat → List Char → List Char
  | 0, cs => cs
  | fuel + 1, cs =>
    match afterNewline? (skipSpace cs) with
    | some rest => go fuel rest
    | none => skipSpace cs

def closing? (quote : Char) (cs : List Char) : Option (List Char × List Char) :=
  let quotes := (cs.takeWhile (· == quote)).length
  if quotes < 3 then none
  else
    let kept := min (quotes - 3) 2
    some (List.replicate kept quote, cs.drop (kept + 3))

def scanLong (quote : Char) (escapes : Bool) :
    Nat → List Char → List Char → Option (String × List Char)
  | 0, _, _ => none
  | fuel + 1, read, cs =>
    match closing? quote cs with
    | some (last, rest) => some (String.ofList (read.reverse ++ last), rest)
    | none =>
      match afterNewline? cs with
      | some rest => scanLong quote escapes fuel ('\n' :: read) rest
      | none =>
        match cs with
        | [] => none
        | c :: rest =>
          if escapes && c == '\\' then
            match skipFolded fuel rest with
            | some rest => scanLong quote escapes fuel read rest
            | none =>
              match scanEscape rest with
              | some (c, rest) => scanLong quote escapes fuel (c :: read) rest
              | none => none
          else if isPlain c then scanLong quote escapes fuel (c :: read) rest
          else none

def scanLongText (quote : Char) (escapes : Bool) (cs : List Char) : Option (String × List Char) :=
  scanLong quote escapes (cs.length + 1) [] ((afterNewline? cs).getD cs)

def scanQuoted (cs : List Char) : Option (String × List Char) :=
  match cs with
  | '"' :: '"' :: '"' :: rest => scanLongText '"' true rest
  | '"' :: rest => scanBasic (rest.length + 1) [] rest
  | '\'' :: '\'' :: '\'' :: rest => scanLongText '\'' false rest
  | '\'' :: rest => scanLiteral rest
  | _ => none

/-! Keys are bare words or quoted on one line, with points between the parts of a path. -/

def isBareKey (c : Char) : Bool :=
  c.isAlphanum || c == '-' || c == '_'

def scanKeyPart (cs : List Char) : Option (String × List Char) :=
  match cs with
  | '"' :: rest => scanBasic (rest.length + 1) [] rest
  | '\'' :: rest => scanLiteral rest
  | cs =>
    match cs.takeWhile isBareKey with
    | [] => none
    | word => some (String.ofList word, cs.dropWhile isBareKey)

def deepest : Nat := 79

def scanPath : Nat → List Char → Option (List String × List Char)
  | 0, _ => none
  | fuel + 1, cs =>
    match scanKeyPart (skipSpace cs) with
    | none => none
    | some (part, rest) =>
      match skipSpace rest with
      | '.' :: rest => (scanPath fuel rest).map fun (path, rest) => (part :: path, rest)
      | rest => some ([part], rest)

def scanKey (cs : List Char) : Option (List String × List Char) :=
  scanPath deepest cs

end AccessControl.Toml
