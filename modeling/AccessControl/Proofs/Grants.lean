import AccessControl.Deciding
import AccessControl.Proofs.Tables

/-! A search through the models of grants finds something exactly when one of the roles carries a
grant for the request. -/

namespace AccessControl

namespace Store

def PermissionCovers (s : Store) (permission : String) (request : GrantRequest) : Prop :=
  ∃ p, s.permission? permission = some p ∧ p.isActive = true ∧
    (∃ id action, p.action = some id ∧ s.action? id = some action ∧
      action.name = request.action) ∧
    ∃ id resource, p.resource = some id ∧ s.resource? id = some resource ∧
      resource.type = request.type ∧ (resource.object = none ∨ resource.object = some request.id)

def LinkedGrant (s : Store) (role : String) (request : GrantRequest) : Prop :=
  ∃ l ∈ s.rolePermissions, l.role = role ∧ l.isActive = true ∧
    s.PermissionCovers l.permission request

def DirectGrant (s : Store) (role : String) (request : GrantRequest) : Prop :=
  ∃ p ∈ s.resourcePermissions, p.role = role ∧ p.isActive = true ∧ p.type = request.type ∧
    p.action = request.action ∧
    (p.resource = "" ∨ p.resource = ResourcePermission.wildcard ∨ p.resource = request.id)

def Carries (s : Store) (request : GrantRequest) : GrantModel → String → Prop
  | .named, role => s.LinkedGrant role request
  | .direct, role => s.DirectGrant role request

variable {s : Store} {request : GrantRequest}

lemma permissionIdCovers_iff {permission : String} :
    s.permissionIdCovers permission request = true ↔ s.PermissionCovers permission request := by
  unfold permissionIdCovers PermissionCovers
  cases hp : s.permission? permission with
  | none => simp
  | some p =>
    simp only [Option.any_some, permissionCovers, Bool.and_eq_true, Option.some.injEq,
      exists_eq_left']
    refine and_congr_right fun _ => ?_
    cases hr : p.resource with
    | none => simp
    | some resource =>
      cases ha : p.action with
      | none => simp
      | some action =>
        simp only [Bool.and_eq_true, Option.any_eq_true, beq_iff_eq, Option.some.injEq,
          exists_and_left, exists_eq_left', Resource.denotes, Option.all_eq_true]
        refine and_congr_right fun _ => exists_congr fun r => and_congr_right fun _ =>
          and_congr_right fun _ => ?_
        cases r.object <;> simp

lemma grantsNamed_iff {role : Role} :
    s.grantsNamed request role = true ↔ s.LinkedGrant role.id request := by
  simp only [grantsNamed, linksOfRole, List.any_filter, List.any_eq_true, Bool.and_eq_true,
    beq_iff_eq, permissionIdCovers_iff, LinkedGrant]

lemma covers_iff {p : ResourcePermission} {type id action : String} :
    p.covers type id action = true ↔ p.isActive = true ∧ p.type = type ∧ p.action = action ∧
      (p.resource = "" ∨ p.resource = ResourcePermission.wildcard ∨ p.resource = id) := by
  simp only [ResourcePermission.covers, ResourcePermission.isTypeLevel, Bool.and_eq_true,
    Bool.or_eq_true, beq_iff_eq, String.isEmpty_iff, and_assoc, or_assoc]

lemma findGrant_isSome {roles : List Role} :
    (s.findGrant (roles.map (·.id)) request.type request.id request.action).isSome = true ↔
      ∃ r ∈ roles, s.DirectGrant r.id request := by
  simp only [findGrant, List.find?_isSome, Bool.and_eq_true, List.contains_iff_mem, List.mem_map,
    covers_iff]
  constructor
  · rintro ⟨p, hp, ⟨r, hr, hid⟩, hgrant⟩
    exact ⟨r, hr, p, hp, hid.symm, hgrant⟩
  · rintro ⟨r, hr, p, hp, hrole, hgrant⟩
    exact ⟨p, hp, ⟨r, hr, hrole.symm⟩, hgrant⟩

lemma find?_of_findGrant {roles : List Role} {type id action : String} {p : ResourcePermission}
    (h : s.findGrant (roles.map (·.id)) type id action = some p) :
    ∃ r, roles.find? (·.id == p.role) = some r := by
  have hc := List.find?_some h
  simp only [Bool.and_eq_true, List.contains_iff_mem, List.mem_map] at hc
  obtain ⟨⟨r, hr, hid⟩, -⟩ := hc
  rw [← Option.isSome_iff_exists, List.find?_isSome]
  exact ⟨r, hr, beq_iff_eq.mpr hid⟩

lemma matchDirect_eq (s : Store) (roles : List Role) (request : GrantRequest) :
    s.matchDirect roles request =
      ((s.findGrant (roles.map (·.id)) request.type request.id request.action).bind fun p =>
        roles.find? (·.id == p.role)).map .direct := by
  cases hf : s.findGrant (roles.map (·.id)) request.type request.id request.action with
  | none => simp [matchDirect, hasGrant, hf]
  | some p =>
    obtain ⟨r, hr⟩ := find?_of_findGrant hf
    simp [matchDirect, hasGrant, hf, hr]

lemma matchDirect_isSome {roles : List Role} :
    (s.matchDirect roles request).isSome = true ↔ ∃ r ∈ roles, s.DirectGrant r.id request := by
  rw [matchDirect_eq, ← findGrant_isSome]
  cases hf : s.findGrant (roles.map (·.id)) request.type request.id request.action with
  | none => rfl
  | some p =>
    obtain ⟨r, hr⟩ := find?_of_findGrant hf
    simp [hr]

lemma matchGrant_isSome {model : GrantModel} {roles : List Role} :
    (s.matchGrant model roles request).isSome = true ↔
      ∃ r ∈ roles, s.Carries request model r.id := by
  cases model with
  | named => simp [matchGrant, matchNamed, Carries, List.find?_isSome, grantsNamed_iff]
  | direct => exact matchDirect_isSome

def AnyCarries (s : Store) (models : List GrantModel) (request : GrantRequest)
    (roles : List String) : Prop :=
  ∃ role ∈ roles, ∃ model ∈ models, s.Carries request model role

lemma matchRoles_ok (h : s.available = true) (model : GrantModel) (roles : List Role) :
    s.matchRoles model roles request = .ok (s.matchGrant model roles request) := by
  rw [matchRoles]
  split
  · rename_i he
    rw [List.isEmpty_iff] at he
    cases hm : s.matchGrant model roles request with
    | none => rfl
    | some m =>
      obtain ⟨r, hr, -⟩ := matchGrant_isSome.mp (Option.isSome_iff_exists.mpr ⟨m, hm⟩)
      simp [he] at hr
  · exact read_of_available h _

lemma searchModels_ok (h : s.available = true) (roles : List Role) (models : List GrantModel)
    (trace : List String) :
    ∃ search, s.searchModels roles request models trace = .ok search ∧
      (search.found.isSome = true ↔ s.AnyCarries models request (roles.map (·.id))) := by
  induction models generalizing trace with
  | nil => exact ⟨⟨none, trace⟩, rfl, by simp [AnyCarries]⟩
  | cons model rest ih =>
    simp only [searchModels, matchRoles_ok h]
    have hm : (s.matchGrant model roles request).isSome = true ↔ _ := matchGrant_isSome
    cases hg : s.matchGrant model roles request with
    | some m =>
      rw [hg] at hm
      obtain ⟨r, hr, hc⟩ := hm.mp rfl
      refine ⟨_, rfl, iff_of_true rfl ⟨r.id, List.mem_map_of_mem hr, model, ?_, hc⟩⟩
      exact List.mem_cons_self
    | none =>
      rw [hg] at hm
      obtain ⟨search, hs, hf⟩ := ih (trace ++ [model.word ++ ": no match"])
      refine ⟨search, hs, hf.trans ?_⟩
      simp only [AnyCarries, List.mem_map, List.mem_cons, exists_eq_or_imp]
      constructor
      · rintro ⟨role, hr, hc⟩
        exact ⟨role, hr, Or.inr hc⟩
      · rintro ⟨role, ⟨r, hr, rfl⟩, hc | hc⟩
        · exact absurd (hm.mpr ⟨r, hr, hc⟩) (by simp)
        · exact ⟨r.id, ⟨r, hr, rfl⟩, hc⟩

lemma searchRoles_ok (h : s.available = true) (models : List GrantModel)
    (roles : List EffectiveRole) (request : GrantRequest) (trace : List String) :
    ∃ search, s.searchRoles models roles request trace = .ok search ∧
      (search.found.isSome = true ↔
        s.AnyCarries models request (roles.map (·.role.id))) := by
  rw [searchRoles]
  split
  · rename_i he
    rw [List.isEmpty_iff] at he
    exact ⟨_, rfl, by simp [he, AnyCarries]⟩
  · simpa [List.map_map, Function.comp_def] using
      searchModels_ok h (roles.map (·.role)) models trace

end Store

end AccessControl
