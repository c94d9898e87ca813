import AccessControl.Decimal.Shortest

/-!
Written forms of floating-point numbers. Both forms write the shortest digits; they differ in
where positional notation ends and in whether a whole number keeps a fraction digit.
-/

namespace AccessControl.Decimal

structure Layout where
  positional : Int → Bool
  wholeMark : String

def attributeLayout : Layout := ⟨fun point => -5 < point && point ≤ 16, ".0"⟩

def measureLayout : Layout := ⟨fun _ => true, ""⟩

def zeros (n : Nat) : String := String.ofList (List.replicate n '0')

def exponentText (e : Int) : String :=
  let digits := toString e.natAbs
  "e" ++ (if e < 0 then "-" else "+") ++ (if digits.length < 2 then "0" else "") ++ digits

def Layout.magnitude (f : Layout) (s : Scientific) : String :=
  let digits := toString s.significand
  let point : Int := digits.length + s.exponent
  if f.positional point then
    if 0 ≤ s.exponent then digits ++ zeros s.exponent.toNat ++ f.wholeMark
    else if 0 < point then
      String.ofList (digits.toList.take point.toNat) ++ "." ++
        String.ofList (digits.toList.drop point.toNat)
    else "0." ++ zeros (-point).toNat ++ digits
  else
    match digits.toList with
    | [] => ""
    | [d] => String.ofList [d] ++ exponentText (point - 1)
    | d :: rest => String.ofList (d :: '.' :: rest) ++ exponentText (point - 1)

def Layout.write (f : Layout) (bits : UInt64) : String :=
  let sign := if bits >>> 63 = 1 then "-" else ""
  let magnitude := bits &&& 0x7FFFFFFFFFFFFFFF
  if magnitude = 0 then sign ++ "0" ++ f.wholeMark
  else sign ++ f.magnitude (shortest (Binary.ofBits magnitude))

end AccessControl.Decimal
