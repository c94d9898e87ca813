import AccessControl.Fault
import AccessControl.TimeWindow
import AccessControl.Instant.Strict
import AccessControl.Text.Quoted

/-!
Caveats narrow a binding: a window, attributes the principal has to have, and groups of columns the
grant is limited to. In documents the bounds of the window are texts or seconds since 1970, and the
required attributes are an object.
-/

namespace AccessControl

structure Requirement where
  key : String
  expected : Json
deriving Repr, Inhabited

structure Caveat where
  window : Option TimeWindow
  required : List Requirement
  columnGroups : List String
deriving Repr, Inhabited

inductive CaveatFault where
  | badTimestamp (text : String) (fault : InstantFault)
  | badSeconds (n : Number)
  | noInstant (value : Json)
  | endsBeforeStart (ends starts : Instant)

def CaveatFault.message : CaveatFault → String
  | .badTimestamp text fault =>
    "invalid timestamp " ++ Text.quoted text ++ ": " ++ fault.message
  | .badSeconds n => "invalid unix timestamp " ++ n.written
  | .noInstant value => "unsupported timestamp value " ++ value.written
  | .endsBeforeStart ends starts =>
    "ends_at " ++ ends.spokenText ++ " precedes starts_at " ++ starts.spokenText

namespace Caveat

def unconstrained : Caveat := ⟨none, [], []⟩

def withWindow (c : Caveat) (w : TimeWindow) : Caveat := { c with window := some w }

def requireAttribute (c : Caveat) (key : String) (expected : Json) : Caveat :=
  { c with required := c.required ++ [⟨key, expected⟩] }

def withColumnGroups (c : Caveat) (groups : List String) : Caveat :=
  { c with columnGroups := c.columnGroups ++ groups }

def isEmpty (c : Caveat) : Bool :=
  c.window.all (fun w => !w.isBounded) && c.required.isEmpty && c.columnGroups.isEmpty

def endsAt (c : Caveat) : Option Instant :=
  c.window.bind (·.endsAt)

def same (a b : Caveat) : Bool :=
  a.window == b.window &&
    a.required.length == b.required.length &&
    (a.required.zip b.required).all (fun (x, y) => x.key == y.key && x.expected.same y.expected) &&
    a.columnGroups == b.columnGroups

/-- Required attributes as an object; of two requirements for one key the later one is written. -/
def requiredObject (required : List Requirement) : List (String × Json) :=
  Json.orderFields (required.map fun r => (r.key, r.expected))

def json (c : Caveat) : Json :=
  let w := c.window.getD .unbounded
  let instant (t : Instant) : Json := .string t.writtenWithOffset
  .object (Json.field? "starts_at" instant w.startsAt ++ Json.field? "ends_at" instant w.endsAt ++
    (match requiredObject c.required with
      | [] => []
      | fields => [("required_attributes", .object fields)]) ++
    (match c.columnGroups with
      | [] => []
      | groups => [("column_groups", .array (groups.map .string))]))

structure Draft where
  startsAt : Option Json
  endsAt : Option Json
  required : List (String × Json)
  columnGroups : List String

def objectFields? (d : Document) : Option (List (String × Json)) :=
  match d with
  | .object fields => (Document.fieldValues? fields).map Json.orderFields
  | _ => none

def Draft.ofDocument? (d : Document) : Option Draft := do
  let r ← d.record? ["starts_at", "ends_at", "required_attributes", "column_groups"]
  pure {
    startsAt := ← r.optional "starts_at" Document.value?
    endsAt := ← r.optional "ends_at" Document.value?
    required := ← r.withDefault "required_attributes" objectFields? []
    columnGroups := ← r.withDefault "column_groups" (Document.list? Document.text?) [] }

def instantOf : Json → Except CaveatFault (Option Instant)
  | .null => .ok none
  | .string s =>
    match Instant.ofStrictText s with
    | .ok t => .ok (some t)
    | .error fault => .error (.badTimestamp s fault)
  | .number n =>
    match n with
    | .integer secs =>
      match (if secs < Word.signedBound then Instant.ofSeconds? secs else none) with
      | some t => .ok (some t)
      | none => .error (.badSeconds n)
    | .double _ => .error (.badSeconds n)
  | other => .error (.noInstant other)

def bound : Option Json → Except CaveatFault (Option Instant)
  | none => .ok none
  | some j => instantOf j

def ofDraft (d : Draft) : Except CaveatFault Caveat := do
  let startsAt ← bound d.startsAt
  let endsAt ← bound d.endsAt
  let caveat : Caveat :=
    { window := if startsAt.isSome || endsAt.isSome then some ⟨startsAt, endsAt⟩ else none
      required := d.required.map fun f => ⟨f.1, f.2⟩
      columnGroups := d.columnGroups }
  match startsAt, endsAt with
  | some s, some e => if e < s then .error (.endsBeforeStart e s) else .ok caveat
  | _, _ => .ok caveat

def ofDocument? (d : Document) : Option Caveat :=
  match Draft.ofDocument? d with
  | some draft => (ofDraft draft).toOption
  | none => none

def ofText (s : String) : Except Fault Caveat :=
  let malformed := .error (.validation "malformed caveat")
  match Document.scan? s with
  | none => malformed
  | some (d, rest) =>
    match Draft.ofDocument? d with
    | none => malformed
    | some draft =>
      match ofDraft draft with
      | .error fault => .error (.validation ("malformed caveat: " ++ fault.message))
      | .ok caveat => if Document.onlyBlank rest then .ok caveat else malformed

end Caveat

end AccessControl
