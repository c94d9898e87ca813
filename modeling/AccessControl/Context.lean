import AccessControl.TimeWindow

/-!
What a request is evaluated in: an organization, a group it is made on behalf of, and the instant
that every window is compared with.
-/

namespace AccessControl

structure Context where
  organization : Option String
  group : Option String
  now : Instant
deriving DecidableEq, Repr, Inhabited

namespace Context

def json (c : Context) : Json :=
  .object (Json.field? "organization_id" .string c.organization ++
    Json.field? "group_id" .string c.group ++ [("now", c.now.json)])

def ofDocument? (d : Document) : Option Context := do
  let r ← d.record? ["organization_id", "group_id", "now"]
  pure {
    organization := ← r.optional "organization_id" Document.text?
    group := ← r.optional "group_id" Document.text?
    now := ← r.required "now" Instant.ofDocument? }

end Context

end AccessControl
