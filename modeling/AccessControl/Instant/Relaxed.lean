import AccessControl.Instant.Clock

/-!
The relaxed reader, used for every other instant: blanks before numbers, dashes, colons and the
offset are passed over, the year may have a sign and any number of digits, other numbers have one
or two, and the offset may also be spelled `UTC`.
-/

namespace AccessControl.Instant

def relaxedNumber? (most : Nat) (cs : List Char) : Option (Nat × List Char) :=
  let cs := Text.skipBlanks cs
  match (cs.take most).takeWhile Char.isDigit with
  | [] => none
  | digits => some (number digits, cs.drop digits.length)

def relaxedYear? (cs : List Char) : Option (Int × List Char) :=
  match Text.skipBlanks cs with
  | '-' :: rest =>
    match rest.takeWhile Char.isDigit with
    | [] => none
    | digits => some (-(number digits : Int), rest.dropWhile Char.isDigit)
  | '+' :: rest =>
    match rest.takeWhile Char.isDigit with
    | [] => none
    | digits => some (number digits, rest.dropWhile Char.isDigit)
  | cs => (relaxedNumber? 4 cs).map fun (n, r) => (n, r)

def relaxedMark? (mark : Char) (cs : List Char) : Option (List Char) :=
  match Text.skipBlanks cs with
  | c :: rest => if c = mark then some rest else none
  | [] => none

def relaxedDate? (cs : List Char) : Option (Date × List Char) := do
  let (year, cs) ← relaxedYear? cs
  let (month, cs) ← relaxedNumber? 2 (← relaxedMark? '-' cs)
  let (day, cs) ← relaxedNumber? 2 (← relaxedMark? '-' cs)
  let date : Date := ⟨year, month, day⟩
  if Calendar.Valid date then some (date, cs) else none

def relaxedTime? (cs : List Char) : Option ((Nat × Nat) × List Char) := do
  let (hour, cs) ← relaxedNumber? 2 cs
  let (minute, cs) ← relaxedNumber? 2 (← relaxedMark? ':' cs)
  let (second, cs) ← relaxedNumber? 2 (← relaxedMark? ':' cs)
  let (nanos, cs) ← match cs with
    | '.' :: rest => (scanFraction rest).toOption
    | cs => some (0, cs)
  let time ← timeOfDay? hour minute second nanos
  pure (time, cs)

def skipColons (cs : List Char) : Except InstantFault (List Char) :=
  .ok (cs.dropWhile fun c => c == ':' || Text.isBlank c)

def isLetter (c lower upper : Char) : Bool := c == lower || c == upper

def relaxedOffset? (cs : List Char) : Option (Int × List Char) :=
  match cs with
  | u :: t :: c :: rest =>
    if isLetter u 'u' 'U' && isLetter t 't' 'T' && isLetter c 'c' 'C' then some (0, rest)
    else (scanOffset skipColons cs).toOption
  | cs => (scanOffset skipColons cs).toOption

def ofRelaxedText? (s : String) : Option Instant := do
  let (date, cs) ← relaxedDate? s.toList
  match cs with
  | [] => none
  | sep :: cs =>
    if sep = 'T' ∨ sep = 't' ∨ sep = ' ' then do
      let (time, cs) ← relaxedTime? cs
      let (offset, cs) ← relaxedOffset? (Text.skipBlanks cs)
      if cs.all Text.isBlank then ofLocal? date time offset else none
    else none

def ofDocument? : Document → Option Instant
  | .text s => ofRelaxedText? s
  | _ => none

end AccessControl.Instant
