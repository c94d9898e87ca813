import AccessControl.Json.Value

/-!
Numbers as they are spelled in JSON text. A plain whole number of up to 64 bits is kept as it is;
any other number becomes a floating-point number. Its digits count as long as they fit 64 bits,
later ones only move the point, and the result is scaled by one power of ten. A number too large
for a floating-point number has no value.
-/

namespace AccessControl

structure NumberText where
  negative : Bool
  whole : List Char
  fraction : List Char
  exponentNegative : Bool
  exponent : List Char
  plain : Bool
deriving Repr

namespace NumberText

def spanDigits (cs : List Char) : List Char × List Char :=
  (cs.takeWhile Char.isDigit, cs.dropWhile Char.isDigit)

def scanExponent (cs : List Char) : Option (Option (Bool × List Char) × List Char) :=
  match cs with
  | e :: rest =>
    if e = 'e' ∨ e = 'E' then
      let (negative, rest) :=
        match rest with
        | '+' :: r => (false, r)
        | '-' :: r => (true, r)
        | r => (false, r)
      match spanDigits rest with
      | ([], _) => none
      | (digits, r) => some (some (negative, digits), r)
    else some (none, cs)
  | [] => some (none, [])

def scanFraction (cs : List Char) : Option (Option (List Char) × List Char) :=
  match cs with
  | '.' :: rest =>
    match spanDigits rest with
    | ([], _) => none
    | (digits, r) => some (some digits, r)
  | _ => some (none, cs)

def scan (cs : List Char) : Option (NumberText × List Char) :=
  let (negative, cs) :=
    match cs with
    | '-' :: r => (true, r)
    | r => (false, r)
  match spanDigits cs with
  | ([], _) => none
  | ('0' :: _ :: _, _) => none
  | (whole, r) => do
    let (fraction, r) ← scanFraction r
    let (exponent, r) ← scanExponent r
    let (exponentNegative, digits) := exponent.getD (false, [])
    pure (⟨negative, whole, fraction.getD [], exponentNegative, digits,
      fraction.isNone && exponent.isNone⟩, r)

def digitValue (c : Char) : Nat := c.toNat - '0'.toNat

def gather (significand : Nat) : List Char → Nat × Nat
  | [] => (significand, 0)
  | d :: ds =>
    if significand * 10 + digitValue d < Word.bound then
      gather (significand * 10 + digitValue d) ds
    else (significand, ds.length + 1)

def powerOfTen (k : Nat) : Float := Float.ofScientific 1 false k

def scale (f : Float) (e : Int) : Nat → Option Float
  | 0 => some f
  | fuel + 1 =>
    if e.natAbs ≤ 308 then
      if 0 ≤ e then
        let scaled := f * powerOfTen e.natAbs
        if scaled.isInf then none else some scaled
      else some (f / powerOfTen e.natAbs)
    else if f == 0 then some f
    else if 0 ≤ e then none
    else scale (f / powerOfTen 308) (e + 308) fuel

def double (negative : Bool) (significand : Nat) (e : Int) : Option Number := do
  -- After three divisions nothing is left of any 64-bit significand.
  let f ← scale significand.toUInt64.toFloat e 4
  pure (.double (if negative then -f else f).toBits)

def value (t : NumberText) : Option Number :=
  let (significand, dropped) := gather 0 t.whole
  if t.plain && dropped == 0 then
    if t.negative then
      if 0 < significand ∧ significand ≤ Word.signedBound then some (.integer (-significand))
      else double true significand 0
    else some (.integer significand)
  else
    let (significand, unused) := gather significand t.fraction
    let size : Int := t.exponent.foldl (fun n d => n * 10 + digitValue d) 0
    let shift := if t.exponentNegative then -size else size
    double t.negative significand (dropped - (t.fraction.length - unused : Int) + shift)

end NumberText

end AccessControl
