import AccessControl.Json.Record

/-! Spans of time in whole nanoseconds, written as seconds and a rest below one second. -/

namespace AccessControl

structure Duration where
  nanos : Nat
deriving DecidableEq, Repr, Inhabited

namespace Duration

def perSecond : Nat := 1000000000

def zero : Duration := ⟨0⟩
def ofSeconds (s : Nat) : Duration := ⟨s * perSecond⟩
def ofMicros (n : Nat) : Duration := ⟨n * 1000⟩

def seconds (d : Duration) : Nat := d.nanos / perSecond
def subseconds (d : Duration) : Nat := d.nanos % perSecond

def micros (d : Duration) : Nat := d.nanos / 1000 % Word.bound

def min (a b : Duration) : Duration := if a.nanos ≤ b.nanos then a else b

def milliseconds (d : Duration) : Float :=
  (d.seconds.toUInt64.toFloat + d.subseconds.toUInt64.toFloat / 1000000000) * 1000

def json (d : Duration) : Json :=
  .object [("secs", .nat d.seconds), ("nanos", .nat d.subseconds)]

def ofDocument? (d : Document) : Option Duration := do
  let names := ["secs", "nanos"]
  let r ← d.record? names
  if r.given.all (fun f => names.contains f.1) then
    let secs ← r.required "secs" Document.word?
    let nanos ← r.required "nanos" (Document.natBelow? Word.shortBound)
    if secs + nanos / perSecond < Word.bound then some ⟨secs * perSecond + nanos⟩ else none
  else none

end Duration

end AccessControl
