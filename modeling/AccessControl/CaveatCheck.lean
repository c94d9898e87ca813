import AccessControl.Context
import AccessControl.Store

/-!
Checking a binding's caveat for a principal: the window against the instant of evaluation, and the
required attributes against those the principal has in the binding's organization. Anything that is
missing fails the check.
-/

namespace AccessControl

structure CaveatOutcome where
  passed : Bool
  reason : String
  columnGroups : List String
  validUntil : Option Instant
deriving DecidableEq, Repr, Inhabited

namespace CaveatOutcome

def pass (reason : String) (columnGroups : List String) (validUntil : Option Instant) :
    CaveatOutcome :=
  ⟨true, reason, columnGroups, validUntil⟩

def fail (reason : String) : CaveatOutcome := ⟨false, reason, [], none⟩

end CaveatOutcome

def Json.plainText : Json → String
  | .string s => s
  | j => j.written

/-- Equal values match, and so do values with one text: `5` and `"5"`. -/
def Json.agrees (expected actual : Json) : Bool :=
  expected.same actual || expected.plainText == actual.plainText

namespace Attribute

def precedes (a b : Attribute) : Bool :=
  if a.organization.isSome == b.organization.isSome then a.id ≤ b.id
  else b.organization.isSome

end Attribute

namespace CaveatCheck

def windowFault (w : TimeWindow) (now : Instant) : Option String :=
  match w.startsAt.filter (fun s => now < s), w.endsAt.filter (fun e => e < now) with
  | some s, _ => some ("access not yet active (starts at " ++ s.writtenWithOffset ++ ")")
  | none, some e => some ("access expired (ended at " ++ e.writtenWithOffset ++ ")")
  | none, none => none

def candidates (s : Store) (principal organization : String) (now : Instant) : List Attribute :=
  ((s.attributesOf principal .principal).filter fun a =>
    a.isEffective now && a.visibleIn organization).mergeSort Attribute.precedes

def choose (provided : List Attribute) (key : String) : Option Attribute :=
  provided.reverse.find? (·.key == key)

def checkAttributes (provided : List Attribute) :
    List Requirement → Option Instant → Except String (Option Instant)
  | [], bound => .ok bound
  | r :: rest, bound =>
    match choose provided r.key with
    | none => .error ("missing required attribute: " ++ r.key)
    | some a =>
      if r.expected.agrees a.value then
        checkAttributes provided rest (earliest bound a.expiresAt)
      else .error ("attribute mismatch: " ++ r.key)

def noCaveats : String := "no caveats to evaluate"

def passReason (c : Caveat) : String :=
  let parts := (if c.window.isSome then ["time window"] else []) ++
    (if c.required.isEmpty then [] else ["required attributes"])
  if parts.isEmpty then noCaveats else "caveats satisfied: " ++ ", ".intercalate parts

def checkRequired (s : Store) (c : Caveat) (b : Binding) (principal : String) (now : Instant) :
    CaveatOutcome :=
  match checkAttributes (candidates s principal b.organization now) c.required none with
  | .ok bound => .pass (passReason c) c.columnGroups bound
  | .error reason => .fail reason

end CaveatCheck

def Store.checkCaveat (s : Store) (b : Binding) (principal : String) (ctx : Context) :
    Except Fault CaveatOutcome :=
  match b.caveat with
  | none => .ok (.pass CaveatCheck.noCaveats [] none)
  | some c =>
    match c.window.bind (CaveatCheck.windowFault · ctx.now) with
    | some reason => .ok (.fail reason)
    | none =>
      if c.required.isEmpty then .ok (.pass (CaveatCheck.passReason c) c.columnGroups none)
      else s.read (CaveatCheck.checkRequired s c b principal ctx.now)

end AccessControl
