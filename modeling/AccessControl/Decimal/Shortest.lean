import AccessControl.Word

/-!
Shortest decimal of a binary floating-point number: the fewest digits that read back as the same
number and, among those, the nearest. A finite positive number is `mantissa * 2 ^ exponent`; every
real between the midpoints to its two neighbours reads back as it, the midpoints included when the
mantissa is even.
-/

namespace AccessControl.Decimal

structure Binary where
  mantissa : Nat
  exponent : Int
  narrowBelow : Bool
deriving DecidableEq, Repr

structure Scientific where
  significand : Nat
  exponent : Int
deriving DecidableEq, Repr

namespace Binary

def ofBits (bits : UInt64) : Binary :=
  let biased := ((bits >>> 52) &&& 0x7FF).toNat
  let fraction := (bits &&& 0xFFFFFFFFFFFFF).toNat
  if biased = 0 then ⟨fraction, -1074, false⟩
  else ⟨fraction + twoTo 52, (biased : Int) - 1075, fraction == 0 && 1 < biased⟩

def quarters (b : Binary) (units : Nat) : Nat × Nat :=
  let e := b.exponent - 2
  (units * twoTo e.toNat, twoTo (-e).toNat)

def value (b : Binary) : Nat × Nat := b.quarters (4 * b.mantissa)
def upper (b : Binary) : Nat × Nat := b.quarters (4 * b.mantissa + 2)
def lower (b : Binary) : Nat × Nat :=
  b.quarters (4 * b.mantissa - if b.narrowBelow then 1 else 2)

end Binary

def atMost (c : Nat) (place : Int) (x : Nat × Nat) (strict : Bool) : Bool :=
  let l := c * tenTo place.toNat * x.2
  let r := x.1 * tenTo (-place).toNat
  if strict then l < r else l ≤ r

def atLeast (c : Nat) (place : Int) (x : Nat × Nat) (strict : Bool) : Bool :=
  let l := c * tenTo place.toNat * x.2
  let r := x.1 * tenTo (-place).toNat
  if strict then r < l else r ≤ l

def readsBack (b : Binary) (c : Nat) (place : Int) : Bool :=
  let strict := b.mantissa % 2 == 1
  atLeast c place b.lower strict && atMost c place b.upper strict

def below (b : Binary) (place : Int) : Nat :=
  let v := b.value
  v.1 * tenTo (-place).toNat / (v.2 * tenTo place.toNat)

def nearerNeighbour (b : Binary) (place : Int) : Nat :=
  let v := b.value
  let d := below b place
  let twice := 2 * (v.1 * tenTo (-place).toNat)
  let middle := (2 * d + 1) * (v.2 * tenTo place.toNat)
  if twice < middle then d
  else if middle < twice then d + 1
  else if d % 2 = 0 then d else d + 1

def onGrid? (b : Binary) (place : Int) : Option Nat :=
  let d := below b place
  let low := readsBack b d place
  let high := readsBack b (d + 1) place
  if low && high then some (nearerNeighbour b place)
  else if low then some d
  else if high then some (d + 1)
  else none

def leadingPlace (b : Binary) : Int :=
  let v := b.value
  if v.2 ≤ v.1 then ((Nat.toDigits 10 (v.1 / v.2)).length : Int) - 1
  else
    let digits (j : Nat) := (Nat.toDigits 10 (v.1 * tenTo j / v.2)).length
    (digits 400 : Int) - 1 - 400

def searchGrids (b : Binary) (place : Int) : Nat → Scientific
  | 0 => ⟨below b place, place⟩
  | fuel + 1 =>
    match onGrid? b place with
    | some c => ⟨c, place⟩
    | none => searchGrids b (place - 1) fuel

def dropTrailingZeros : Nat → Scientific → Scientific
  | 0, s => s
  | fuel + 1, s =>
    if s.significand ≠ 0 ∧ s.significand % 10 = 0 then
      dropTrailingZeros fuel ⟨s.significand / 10, s.exponent + 1⟩
    else s

def shortest (b : Binary) : Scientific :=
  dropTrailingZeros 18 (searchGrids b (leadingPlace b) 17)

end AccessControl.Decimal
