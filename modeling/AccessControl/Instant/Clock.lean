import AccessControl.Instant
import AccessControl.Text.Blank

/-!
Parts that both readers of instants share: digits, the time of day, the fraction of a second, the
offset from universal time, and the faults they can find.
-/

namespace AccessControl

inductive InstantFault where
  | tooShort
  | invalid
  | outOfRange
  | trailing
deriving DecidableEq, Repr

def InstantFault.message : InstantFault → String
  | .tooShort => "premature end of input"
  | .invalid => "input contains invalid characters"
  | .outOfRange => "input is out of range"
  | .trailing => "trailing input"

namespace Instant

def digit (c : Char) : Nat := c.toNat - '0'.toNat

def number (digits : List Char) : Nat :=
  digits.foldl (fun n c => n * 10 + digit c) 0

def scanFraction (cs : List Char) : Except InstantFault (Nat × List Char) :=
  match cs.takeWhile Char.isDigit with
  | [] => .error (if cs.isEmpty then .tooShort else .invalid)
  | digits =>
    let kept := digits.take 9
    .ok (number kept * tenTo (9 - kept.length), cs.dropWhile Char.isDigit)

def isMinus (c : Char) : Bool := c == '-' || c.toNat == 0x2212

def scanOffset (separator : List Char → Except InstantFault (List Char)) (cs : List Char) :
    Except InstantFault (Int × List Char) :=
  match cs with
  | [] => .error .tooShort
  | c :: rest =>
    if c = 'Z' ∨ c = 'z' then .ok (0, rest)
    else if c = '+' ∨ isMinus c then
      match rest with
      | h₁ :: h₂ :: rest =>
        if h₁.isDigit && h₂.isDigit then do
          let rest ← separator rest
          match rest with
          | m₁ :: m₂ :: rest =>
            if m₁.isDigit && m₂.isDigit then
              if digit m₁ ≤ 5 then
                let s : Int := (number [h₁, h₂] * 60 + number [m₁, m₂]) * 60
                .ok (if c = '+' then s else -s, rest)
              else .error .outOfRange
            else .error .invalid
          | [m] => .error (if m.utf8Size < 2 then .tooShort else .invalid)
          | [] => .error .tooShort
        else .error .invalid
      | [h] => .error (if h.utf8Size < 2 then .tooShort else .invalid)
      | [] => .error .tooShort
    else .error .invalid

def timeOfDay? (hour minute second nanos : Nat) : Option (Nat × Nat) :=
  if hour ≤ 23 ∧ minute ≤ 59 ∧ second ≤ 60 then
    let kept := if second = 60 then 59 else second
    some ((hour * 60 + minute) * 60 + kept,
      if second = 60 then Duration.perSecond + nanos else nanos)
  else none

def ofLocal? (date : Date) (time : Nat × Nat) (offset : Int) : Option Instant :=
  if offset.natAbs < 86400 then
    let t : Instant := ⟨Calendar.daysOf date * 86400 + time.1 - offset, time.2⟩
    if t.InRange then some t else none
  else none

end Instant

end AccessControl
