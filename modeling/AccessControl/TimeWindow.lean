import AccessControl.Instant.Written
import AccessControl.Instant.Relaxed

/-! Validity windows: two optional bounds, both part of the window. -/

namespace AccessControl

structure TimeWindow where
  startsAt : Option Instant
  endsAt : Option Instant
deriving DecidableEq, Repr, Inhabited

namespace TimeWindow

def unbounded : TimeWindow := ⟨none, none⟩
def between (s e : Instant) : TimeWindow := ⟨some s, some e⟩
def endingAt (e : Instant) : TimeWindow := ⟨none, some e⟩
def startingAt (s : Instant) : TimeWindow := ⟨some s, none⟩

def contains (w : TimeWindow) (t : Instant) : Bool :=
  w.startsAt.all (fun s => s ≤ t) && w.endsAt.all (fun e => t ≤ e)

def isBounded (w : TimeWindow) : Bool :=
  w.startsAt.isSome || w.endsAt.isSome

def nextTransition (w : TimeWindow) (now : Instant) : Option Instant :=
  match w.startsAt.filter (fun s => now < s) with
  | some s => some s
  | none => w.endsAt.filter (fun e => now ≤ e)

def fields (w : TimeWindow) : List (String × Json) :=
  Json.field? "starts_at" Instant.json w.startsAt ++ Json.field? "ends_at" Instant.json w.endsAt

def json (w : TimeWindow) : Json := .object w.fields

def fieldNames : List String := ["starts_at", "ends_at"]

def ofRecord? (r : Record) : Option TimeWindow := do
  pure {
    startsAt := ← r.optional "starts_at" Instant.ofDocument?
    endsAt := ← r.optional "ends_at" Instant.ofDocument? }

def ofDocument? (d : Document) : Option TimeWindow := do
  ofRecord? (← d.record? fieldNames)

end TimeWindow

end AccessControl
