import AccessControl.Calendar
import AccessControl.Instant.Clock
import AccessControl.Json.Document

/-!
Numbers, dates and truth values of TOML. Digits may be grouped with underscores; whole numbers fit
64 bits with a sign. A date or a time is taken as a record without fields.
-/

namespace AccessControl.Toml

def scanDigits (isDigit : Char → Bool) : List Char → List Char × List Char
  | [] => ([], [])
  | [c] => if isDigit c then ([c], []) else ([], [c])
  | c :: '_' :: d :: rest =>
    if isDigit c then
      if isDigit d then
        let (digits, rest) := scanDigits isDigit (d :: rest)
        (c :: digits, rest)
      else ([c], '_' :: d :: rest)
    else ([], c :: '_' :: d :: rest)
  | c :: d :: rest =>
    if isDigit c then
      let (digits, rest) := scanDigits isDigit (d :: rest)
      (c :: digits, rest)
    else ([], c :: d :: rest)

def scanSign : List Char → Bool × List Char
  | '+' :: rest => (false, rest)
  | '-' :: rest => (true, rest)
  | cs => (false, cs)

def scanWhole (cs : List Char) : Option (List Char × List Char) :=
  match cs with
  | '0' :: rest => some (['0'], rest)
  | cs =>
    match scanDigits Char.isDigit cs with
    | ([], _) => none
    | found => some found

def integer? (n : Int) : Option Document :=
  if -Word.signedBound ≤ n ∧ n < Word.signedBound then some (.number (.integer n)) else none

def digitsValue (base : Nat) (digits : List Char) : Nat :=
  digits.foldl (fun n c => n * base + (Document.hexValue? c).getD 0) 0

def isHexDigit (c : Char) : Bool := (Document.hexValue? c).isSome
def isOctalDigit (c : Char) : Bool := '0' ≤ c && c ≤ '7'
def isBinaryDigit (c : Char) : Bool := c == '0' || c == '1'

def scanBase (base : Nat) (isDigit : Char → Bool) (cs : List Char) :
    Option (Document × List Char) :=
  match scanDigits isDigit cs with
  | ([], _) => none
  | (digits, rest) => (integer? (digitsValue base digits)).map (·, rest)

def scanInteger (cs : List Char) : Option (Document × List Char) :=
  match cs with
  | '0' :: 'x' :: rest => scanBase 16 isHexDigit rest
  | '0' :: 'o' :: rest => scanBase 8 isOctalDigit rest
  | '0' :: 'b' :: rest => scanBase 2 isBinaryDigit rest
  | cs =>
    let (negative, cs) := scanSign cs
    match scanWhole cs with
    | none => none
    | some (digits, rest) =>
      let n : Int := digitsValue 10 digits
      (integer? (if negative then -n else n)).map (·, rest)

structure FloatParts where
  fraction : Option (List Char)
  exponent : Option (Bool × List Char)

def scanExponent (cs : List Char) : Option (Option (Bool × List Char) × List Char) :=
  match cs with
  | e :: rest =>
    if e = 'e' ∨ e = 'E' then
      let (negative, rest) := scanSign rest
      match scanDigits Char.isDigit rest with
      | ([], _) => none
      | (digits, rest) => some (some (negative, digits), rest)
    else some (none, cs)
  | [] => some (none, [])

def scanParts (cs : List Char) : Option (FloatParts × List Char) :=
  match cs with
  | '.' :: rest =>
    match scanDigits Char.isDigit rest with
    | ([], _) => none
    | (digits, rest) => (scanExponent rest).map fun (e, rest) => (⟨some digits, e⟩, rest)
  | cs =>
    match scanExponent cs with
    | some (some e, rest) => some (⟨none, some e⟩, rest)
    | _ => none

def floatValue? (t : NumberText) : Option Document :=
  match t.value with
  | some n => some (.number n)
  | none => if t.negative then some .unreadable else none

def scanFloat (cs : List Char) : Option (Document × List Char) := do
  let (negative, cs) := scanSign cs
  match cs with
  | 'i' :: 'n' :: 'f' :: rest => some (.unreadable, rest)
  | 'n' :: 'a' :: 'n' :: rest => some (.unreadable, rest)
  | cs =>
    let (whole, cs) ← scanWhole cs
    let (parts, rest) ← scanParts cs
    let (exponentNegative, exponent) := parts.exponent.getD (false, [])
    let d ← floatValue?
      ⟨negative, whole, parts.fraction.getD [], exponentNegative, exponent, false⟩
    some (d, rest)

def scanFixed (width : Nat) (cs : List Char) : Option (Nat × List Char) :=
  let digits := cs.take width
  if digits.length = width ∧ digits.all Char.isDigit then
    some (Instant.number digits, cs.drop width)
  else none

def afterMark? (mark : Char) : List Char → Option (List Char)
  | c :: rest => if c = mark then some rest else none
  | [] => none

def scanDate (cs : List Char) : Option (List Char) := do
  let (year, cs) ← scanFixed 4 cs
  let (month, cs) ← scanFixed 2 (← afterMark? '-' cs)
  let (day, cs) ← scanFixed 2 (← afterMark? '-' cs)
  if Calendar.Valid ⟨year, month, day⟩ then some cs else none

def scanTime (cs : List Char) : Option (List Char) := do
  let (hour, cs) ← scanFixed 2 cs
  let (minute, cs) ← scanFixed 2 (← afterMark? ':' cs)
  let (second, cs) ← scanFixed 2 (← afterMark? ':' cs)
  if 23 < hour ∨ 59 < minute ∨ 60 < second then none
  else
    match cs with
    | '.' :: rest =>
      if (rest.takeWhile Char.isDigit).isEmpty then none
      else some (rest.dropWhile Char.isDigit)
    | cs => some cs

def scanOffset (cs : List Char) : Option (List Char) :=
  match cs with
  | c :: rest =>
    if c = 'Z' ∨ c = 'z' then some rest
    else if c = '+' ∨ c = '-' then do
      let (hour, rest) ← scanFixed 2 rest
      let (minute, rest) ← scanFixed 2 (← afterMark? ':' rest)
      if 23 < hour ∨ 59 < minute then none else some rest
    else some cs
  | [] => some []

def scanMoment (cs : List Char) : Option (List Char) :=
  match scanDate cs with
  | some rest =>
    match rest with
    | c :: after =>
      if c = 'T' ∨ c = 't' ∨ c = ' ' then
        match scanTime after with
        | some after => scanOffset after
        | none => some rest
      else some rest
    | [] => some []
  | none => scanTime cs

def scanNumber (cs : List Char) : Option (Document × List Char) :=
  match scanMoment cs with
  | some rest => some (.object [], rest)
  | none => (scanFloat cs).orElse fun _ => scanInteger cs

end AccessControl.Toml
