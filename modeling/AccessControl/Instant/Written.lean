import AccessControl.Instant

/-!
Written instants: date and time of day with as few of 0, 3, 6 or 9 fraction digits as keep the
nanoseconds. Years outside 0 to 9999 carry a sign; a leap second is written as second 60.
-/

namespace AccessControl

def padded (width n : Nat) : String :=
  let digits := toString n
  String.ofList (List.replicate (width - digits.length) '0') ++ digits

namespace Instant

def yearText (y : Int) : String :=
  if 0 ≤ y ∧ y ≤ 9999 then padded 4 y.toNat
  else (if y < 0 then "-" else "+") ++ padded 4 y.natAbs

def dateText (t : Instant) : String :=
  let d := Calendar.dateOf t.day
  yearText d.year ++ "-" ++ padded 2 d.month ++ "-" ++ padded 2 d.day

def fractionText (nanos : Nat) : String :=
  if nanos = 0 then ""
  else if nanos % 1000000 = 0 then "." ++ padded 3 (nanos / 1000000)
  else if nanos % 1000 = 0 then "." ++ padded 6 (nanos / 1000)
  else "." ++ padded 9 nanos

def timeText (t : Instant) : String :=
  let s := t.secondOfDay.toNat
  let leap := Duration.perSecond ≤ t.nanos
  padded 2 (s / 3600) ++ ":" ++ padded 2 (s / 60 % 60) ++ ":" ++
    padded 2 (s % 60 + if leap then 1 else 0) ++
    fractionText (if leap then t.nanos - Duration.perSecond else t.nanos)

def written (t : Instant) : String :=
  t.dateText ++ "T" ++ t.timeText ++ "Z"

def writtenWithOffset (t : Instant) : String :=
  t.dateText ++ "T" ++ t.timeText ++ "+00:00"

def spokenText (t : Instant) : String :=
  t.dateText ++ " " ++ t.timeText ++ " UTC"

def json (t : Instant) : Json := .string t.written

end Instant

end AccessControl
