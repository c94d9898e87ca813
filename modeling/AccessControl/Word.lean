/-! Powers, and the bounds of machine words. -/

namespace AccessControl

def twoTo (k : Nat) : Nat := Nat.pow 2 k
def tenTo (k : Nat) : Nat := Nat.pow 10 k

namespace Word

def bound : Nat := 18446744073709551616

def signedBound : Nat := 9223372036854775808

def shortBound : Nat := 4294967296

theorem bound_eq : bound = twoTo 64 := by decide

theorem signedBound_eq : signedBound = twoTo 63 := by decide

theorem shortBound_eq : shortBound = twoTo 32 := by decide

end Word

end AccessControl
