import AccessControl.Instant.Clock

/-!
The strict reader, used for the instants of caveats: four-digit year, two digits for every other
part, one letter or blank between date and time, an optional fraction and an offset. The date is
judged before the separator, and the time of day before the offset.
-/

namespace AccessControl.Instant

def digitPair (a b : Char) : Except InstantFault Nat :=
  if a.isDigit && b.isDigit then .ok (number [a, b]) else .error .invalid

def expectChar (c expected : Char) : Except InstantFault Unit :=
  if c = expected then .ok () else .error .invalid

def colon : List Char → Except InstantFault (List Char)
  | [] => .error .tooShort
  | c :: rest => if c = ':' then .ok rest else .error .invalid

def strictDate (y₁ y₂ y₃ y₄ d₁ m₁ m₂ d₂ a b : Char) : Except InstantFault Date := do
  let century ← digitPair y₁ y₂
  let year ← digitPair y₃ y₄
  expectChar d₁ '-'
  let month ← digitPair m₁ m₂
  expectChar d₂ '-'
  let day ← digitPair a b
  let date : Date := ⟨century * 100 + year, month, day⟩
  if Calendar.Valid date then .ok date else .error .outOfRange

def strictTime (h₁ h₂ c₁ m₁ m₂ c₂ s₁ s₂ : Char) : Except InstantFault (Nat × Nat × Nat) := do
  let hour ← digitPair h₁ h₂
  expectChar c₁ ':'
  let minute ← digitPair m₁ m₂
  expectChar c₂ ':'
  let second ← digitPair s₁ s₂
  .ok (hour, minute, second)

def largestOffset : Int := (23 * 60 + 59) * 60

def strictRest (date : Date) (hour minute second : Nat) (cs : List Char) :
    Except InstantFault Instant := do
  let (nanos, cs) ← match cs with
    | '.' :: rest => scanFraction rest
    | cs => .ok (0, cs)
  match timeOfDay? hour minute second nanos with
  | none => .error .outOfRange
  | some time => do
    let (offset, cs) ← scanOffset colon cs
    if largestOffset < offset ∨ offset < -largestOffset then .error .outOfRange
    else if cs.isEmpty then
      match ofLocal? date time offset with
      | some t => .ok t
      | none => .error .outOfRange
    else .error .trailing

def ofStrictText (s : String) : Except InstantFault Instant :=
  if s.utf8ByteSize < 19 then .error .tooShort
  else
    match s.toList with
    | y₁ :: y₂ :: y₃ :: y₄ :: d₁ :: m₁ :: m₂ :: d₂ :: a :: b :: sep ::
        h₁ :: h₂ :: c₁ :: n₁ :: n₂ :: c₂ :: s₁ :: s₂ :: rest => do
      let date ← strictDate y₁ y₂ y₃ y₄ d₁ m₁ m₂ d₂ a b
      if sep = 'T' ∨ sep = 't' ∨ sep = ' ' then
        let (hour, minute, second) ← strictTime h₁ h₂ c₁ n₁ n₂ c₂ s₁ s₂
        strictRest date hour minute second rest
      else .error .invalid
    | y₁ :: y₂ :: y₃ :: y₄ :: d₁ :: m₁ :: m₂ :: d₂ :: a :: b :: _ => do
      -- Fewer than nineteen characters in nineteen bytes: one of them is none of the text's.
      let _ ← strictDate y₁ y₂ y₃ y₄ d₁ m₁ m₂ d₂ a b
      .error .invalid
    | _ => .error .invalid

end AccessControl.Instant
