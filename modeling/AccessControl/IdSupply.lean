import AccessControl.Text.Quoted
import AccessControl.Word

/-!
A supply of fresh ids. They are written as universally unique identifiers of version 4, whose free
digits count up from where the supply starts.
-/

namespace AccessControl

structure IdSupply where
  next : Nat
deriving DecidableEq, Repr, Inhabited

namespace IdSupply

def width : Nat := 30

def hexText (n : Nat) : List Char :=
  let digits := Text.hexDigits (n % twoTo (4 * width))
  List.replicate (width - digits.length) '0' ++ digits

def idOf (n : Nat) : String :=
  let digits := hexText n
  String.ofList (digits.take 8 ++ '-' :: (digits.drop 8).take 4 ++
    '-' :: '4' :: (digits.drop 12).take 3 ++ '-' :: '8' :: (digits.drop 15).take 3 ++
    '-' :: digits.drop 18)

def draw (s : IdSupply) : String × IdSupply := (idOf s.next, ⟨s.next + 1⟩)

end IdSupply

end AccessControl
