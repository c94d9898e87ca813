import AccessControl.TimeWindow

/-! Facts about principals, resources and organizations that caveats ask for. -/

namespace AccessControl

inductive AttributeSubject where
  | principal
  | resource
  | organization
deriving DecidableEq, Repr, Inhabited

namespace AttributeSubject

def word : AttributeSubject → String
  | principal => "principal"
  | resource => "resource"
  | organization => "organization"

def words : List (String × AttributeSubject) :=
  [("principal", principal), ("resource", resource), ("organization", organization)]

end AttributeSubject

structure Attribute where
  id : String
  subject : String
  subjectType : AttributeSubject
  key : String
  value : Json
  organization : Option String
  expiresAt : Option Instant
  isActive : Bool
deriving Repr, Inhabited

namespace Attribute

def ofPrincipal (id subject key : String) (value : Json) : Attribute :=
  ⟨id, subject, .principal, key, value, none, none, true⟩

def visibleIn (a : Attribute) (organization : String) : Bool :=
  a.organization.all (· == organization)

def isEffective (a : Attribute) (t : Instant) : Bool :=
  a.isActive && a.expiresAt.all (fun e => t < e)

def sameSlot (a b : Attribute) : Bool :=
  a.subject == b.subject && a.subjectType == b.subjectType && a.key == b.key &&
    a.organization == b.organization

def json (a : Attribute) : Json :=
  .object ([("id", .string a.id), ("subject_id", .string a.subject),
      ("subject_type", .string a.subjectType.word), ("key", .string a.key), ("value", a.value)] ++
    Json.field? "organization_id" .string a.organization ++
    Json.field? "expires_at" Instant.json a.expiresAt ++ [("is_active", .bool a.isActive)])

def ofDocument? (d : Document) : Option Attribute := do
  let r ← d.record? ["id", "subject_id", "subject_type", "key", "value", "organization_id",
    "expires_at", "is_active"]
  pure {
    id := ← r.required "id" Document.text?
    subject := ← r.required "subject_id" Document.text?
    subjectType := ← r.required "subject_type" (Document.choice? AttributeSubject.words)
    key := ← r.required "key" Document.text?
    value := ← r.required "value" Document.value?
    organization := ← r.optional "organization_id" Document.text?
    expiresAt := ← r.optional "expires_at" Instant.ofDocument?
    isActive := ← r.withDefault "is_active" Document.bool? true }

end Attribute

end AccessControl
