import AccessControl.Audit
import AccessControl.Change
import AccessControl.Config
import AccessControl.Store.Snapshot

/-!
Types whose values are written as JSON and read back from documents: the rows of a store, and what
the engine is asked and answers.
-/

namespace AccessControl

class Coded (α : Type) where
  write : α → Json
  read : Document → Option α

namespace Coded

def ofJson [Coded α] (j : Json) : Except Fault α :=
  match read j.document with
  | some a => .ok a
  | none => .error .malformed

def pair? [Coded α] [Coded β] : Document → Option (α × β)
  | .array [a, b] => do pure (← read a, ← read b)
  | _ => none

instance : Coded Json := ⟨id, Document.value?⟩
instance : Coded String := ⟨.string, Document.text?⟩
instance : Coded Bool := ⟨.bool, Document.bool?⟩
instance : Coded Nat := ⟨.nat, Document.word?⟩
instance : Coded Unit := ⟨fun _ => .null, fun _ => some ()⟩
instance [Coded α] : Coded (List α) := ⟨fun l => .array (l.map write), Document.list? read⟩
instance [Coded α] : Coded (Option α) := ⟨fun o => (o.map write).getD .null, Document.orNull? read⟩
instance [Coded α] [Coded β] : Coded (α × β) := ⟨fun p => .array [write p.1, write p.2], pair?⟩

instance : Coded Instant := ⟨Instant.json, Instant.ofDocument?⟩
instance : Coded TimeWindow := ⟨TimeWindow.json, TimeWindow.ofDocument?⟩
instance : Coded Context := ⟨Context.json, Context.ofDocument?⟩
instance : Coded Caveat := ⟨Caveat.json, Caveat.ofDocument?⟩

instance : Coded Organization := ⟨Organization.json, Organization.ofDocument?⟩
instance : Coded Principal := ⟨Principal.json, Principal.ofDocument?⟩
instance : Coded Role := ⟨Role.json, Role.ofDocument?⟩
instance : Coded UserRole := ⟨UserRole.json, UserRole.ofDocument?⟩
instance : Coded Group := ⟨Group.json, Group.ofDocument?⟩
instance : Coded Membership := ⟨Membership.json, Membership.ofDocument?⟩
instance : Coded Inheritance := ⟨Inheritance.json, Inheritance.ofDocument?⟩
instance : Coded GroupRole := ⟨GroupRole.json, GroupRole.ofDocument?⟩
instance : Coded Resource := ⟨Resource.json, Resource.ofDocument?⟩
instance : Coded Action := ⟨Action.json, Action.ofDocument?⟩
instance : Coded Permission := ⟨Permission.json, Permission.ofDocument?⟩
instance : Coded RolePermission := ⟨RolePermission.json, RolePermission.ofDocument?⟩
instance : Coded ResourcePermission := ⟨ResourcePermission.json, ResourcePermission.ofDocument?⟩
instance : Coded Binding := ⟨Binding.json, Binding.ofDocument?⟩
instance : Coded BindingTarget := ⟨BindingTarget.json, BindingTarget.ofDocument?⟩
instance : Coded BindingSubject := ⟨(.string ·.word), Document.choice? BindingSubject.words⟩
instance : Coded Attribute := ⟨Attribute.json, Attribute.ofDocument?⟩
instance : Coded AttributeSubject := ⟨(.string ·.word), Document.choice? AttributeSubject.words⟩
instance : Coded Snapshot := ⟨Snapshot.json, Snapshot.ofDocument?⟩

instance : Coded AccessRequest := ⟨AccessRequest.json, AccessRequest.ofDocument?⟩
instance : Coded ResourceCheck := ⟨ResourceCheck.json, ResourceCheck.ofDocument?⟩
instance : Coded Provenance := ⟨Provenance.json, Provenance.ofDocument?⟩
instance : Coded EffectiveRoles := ⟨EffectiveRoles.json, EffectiveRoles.ofDocument?⟩
instance : Coded RoleSummary := ⟨RoleSummary.json, RoleSummary.ofDocument?⟩
instance : Coded GrantMatch := ⟨GrantMatch.json, GrantMatch.ofDocument?⟩
instance : Coded Decision := ⟨Decision.json, Decision.ofDocument?⟩
instance : Coded BulkDecision := ⟨BulkDecision.json, BulkDecision.ofDocument?⟩
instance : Coded AuditEvent := ⟨AuditEvent.json, AuditEvent.ofDocument?⟩
instance : Coded Change := ⟨Change.json, Change.ofDocument?⟩
instance : Coded Config := ⟨Config.json, Config.ofDocument?⟩

end Coded

end AccessControl
