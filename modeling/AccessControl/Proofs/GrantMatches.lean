import AccessControl.Proofs.Grants

/-! Which role a match is put down to: a named permission to the first role that is linked to one, a
direct grant to the role that holds the first one stored. Only rows can be about more than they spell
out, requests cannot: an id that no row names is granted only along with every other id. -/

namespace AccessControl

namespace Store

/-- The role is linked to a permission that covers the request, and none before it is. -/
def FirstLinked (s : Store) (request : GrantRequest) (roles : List Role) (role : Role) : Prop :=
  ∃ before after, roles = before ++ role :: after ∧ s.LinkedGrant role.id request ∧
    ∀ r ∈ before, ¬ s.LinkedGrant r.id request

def FirstHolding (s : Store) (request : GrantRequest) (roles : List Role) (role : Role) : Prop :=
  ∃ p, s.findGrant (roles.map (·.id)) request.type request.id request.action = some p ∧
    roles.find? (·.id == p.role) = some role

/-- Rows of the model spell out the request's type and its action. -/
def NamesKind (s : Store) (request : GrantRequest) : GrantModel → Prop
  | .named => (∃ r ∈ s.resources.rows, r.type = request.type) ∧
      ∃ a ∈ s.actions.rows, a.name = request.action
  | .direct => ∃ p ∈ s.resourcePermissions, p.type = request.type ∧ p.action = request.action

def NamesId (s : Store) (id : String) : GrantModel → Prop
  | .named => ∃ r ∈ s.resources.rows, r.object = some id
  | .direct => ∃ p ∈ s.resourcePermissions, p.isTypeLevel = false ∧ p.resource = id

variable {s : Store} {request : GrantRequest} {roles : List Role} {role : Role} {m : GrantMatch}
  {model : GrantModel} {id : String}

lemma firstLinked_of_matchNamed (h : s.matchNamed roles request = some m) :
    ∃ role, s.FirstLinked request roles role ∧ m = .named role := by
  obtain ⟨role, hfind, rfl⟩ := Option.map_eq_some_iff.mp h
  obtain ⟨hlinked, before, after, rfl, hbefore⟩ := List.find?_eq_some_iff_append.mp hfind
  refine ⟨role, ⟨before, after, rfl, grantsNamed_iff.mp hlinked, fun r hr hr' => ?_⟩, rfl⟩
  have hnot := hbefore r hr
  rw [grantsNamed_iff.mpr hr'] at hnot
  cases hnot

lemma FirstHolding.directGrant (h : s.FirstHolding request roles role) :
    role ∈ roles ∧ s.DirectGrant role.id request := by
  obtain ⟨p, hp, hrole⟩ := h
  have hcovers := List.find?_some hp
  rw [Bool.and_eq_true, covers_iff] at hcovers
  have hid := List.find?_some hrole
  rw [beq_iff_eq] at hid
  exact ⟨List.mem_of_find?_eq_some hrole, p, List.mem_of_find?_eq_some hp, hid.symm, hcovers.2⟩

lemma firstHolding_of_matchDirect (h : s.matchDirect roles request = some m) :
    ∃ role, s.FirstHolding request roles role ∧ m = .direct role := by
  rw [matchDirect_eq] at h
  obtain ⟨role, hrole, rfl⟩ := Option.map_eq_some_iff.mp h
  obtain ⟨p, hp, hrole⟩ := Option.bind_eq_some_iff.mp hrole
  exact ⟨role, ⟨p, hp, hrole⟩, rfl⟩

lemma Carries.namesKind (h : s.Carries request model id) : s.NamesKind request model := by
  cases model with
  | named =>
    obtain ⟨l, -, -, -, p, -, -, ⟨_, action, -, ha, hname⟩, _, resource, -, hr, htype, -⟩ := h
    exact ⟨⟨resource, Table.mem_of_get? hr, htype⟩, action, Table.mem_of_get? ha, hname⟩
  | direct =>
    obtain ⟨p, hp, -, -, htype, haction, -⟩ := h
    exact ⟨p, hp, htype, haction⟩

lemma Carries.every_id {r : String} (h : s.Carries request model r)
    (hn : ¬ s.NamesId request.id model) (id : String) :
    s.Carries { request with id := id } model r := by
  cases model with
  | named =>
    obtain ⟨l, hl, hrole, hon, p, hp, hactive, haction, rid, resource, hrid, hr, htype, hobject⟩ := h
    refine ⟨l, hl, hrole, hon, p, hp, hactive, haction, rid, resource, hrid, hr, htype, ?_⟩
    rcases hobject with hnone | hsome
    · exact Or.inl hnone
    · exact absurd ⟨resource, Table.mem_of_get? hr, hsome⟩ hn
  | direct =>
    obtain ⟨p, hp, hrole, hactive, htype, haction, hresource⟩ := h
    refine ⟨p, hp, hrole, hactive, htype, haction, ?_⟩
    rcases hresource with hempty | hwildcard | hid
    · exact Or.inl hempty
    · exact Or.inr (Or.inl hwildcard)
    · have hlevel : p.isTypeLevel = true := by
        by_contra hsingle
        exact hn ⟨p, hp, Bool.eq_false_iff.mpr hsingle, hid⟩
      rw [ResourcePermission.isTypeLevel, Bool.or_eq_true, String.isEmpty_iff, beq_iff_eq] at hlevel
      exact hlevel.imp_right Or.inl

/-- Both searches for a grant are exact and put a match down to a role that carries it; a match holds
for every id, unless rows name the id that was asked about. -/
theorem matchRoles_exact (ha : s.available = true) (roles : List Role) (request : GrantRequest) :
    (∃ found, s.matchRoles .named roles request = .ok found ∧
      (found.isSome = true ↔ ∃ r ∈ roles, s.LinkedGrant r.id request) ∧
      ∀ m, found = some m → ∃ role, s.FirstLinked request roles role ∧ m = .named role) ∧
    (∃ found, s.matchRoles .direct roles request = .ok found ∧
      (found.isSome = true ↔ ∃ r ∈ roles, s.DirectGrant r.id request) ∧
      ∀ m, found = some m → ∃ role ∈ roles, s.DirectGrant role.id request ∧
        s.FirstHolding request roles role ∧ m = .direct role) ∧
    ∀ model m, s.matchRoles model roles request = .ok (some m) → s.NamesKind request model ∧
      (s.NamesId request.id model ∨
        ∀ id, ∃ m', s.matchRoles model roles { request with id := id } = .ok (some m')) := by
  refine ⟨⟨_, matchRoles_ok ha .named roles, matchGrant_isSome, ?_⟩,
    ⟨_, matchRoles_ok ha .direct roles, matchGrant_isSome, ?_⟩, ?_⟩
  · exact fun m hm => firstLinked_of_matchNamed hm
  · intro m hm
    obtain ⟨role, hholding, rfl⟩ := firstHolding_of_matchDirect hm
    obtain ⟨hmem, hgrant⟩ := hholding.directGrant
    exact ⟨role, hmem, hgrant, hholding, rfl⟩
  · intro model m hm
    rw [matchRoles_ok ha] at hm
    obtain ⟨r, hr, hcarries⟩ := matchGrant_isSome.mp (Except.ok.inj hm ▸ rfl :
      (s.matchGrant model roles request).isSome = true)
    refine ⟨hcarries.namesKind, or_iff_not_imp_left.mpr fun hn id => ?_⟩
    have hfound : (s.matchGrant model roles { request with id := id }).isSome = true :=
      matchGrant_isSome.mpr ⟨r, hr, hcarries.every_id hn id⟩
    obtain ⟨m', hm'⟩ := Option.isSome_iff_exists.mp hfound
    exact ⟨m', (matchRoles_ok ha model roles).trans (congrArg _ hm')⟩

def readingRoom : Store :=
  { Store.empty with
    resources := .ofList [⟨"docs", "doc", none⟩]
    actions := .ofList [⟨"reading", "read"⟩]
    permissions := .ofList [
      { id := "off", name := "", description := "", resource := some "docs",
        action := some "reading", version := 1, isActive := false },
      { id := "lost", name := "", description := "", resource := some "docs",
        action := some "gone", version := 1, isActive := true },
      { id := "good", name := "", description := "", resource := some "docs",
        action := some "reading", version := 1, isActive := true }]
    rolePermissions := [.link "a" "visitor" "off", .link "b" "clerk" "lost",
      .link "c" "keeper" "good"]
    resourcePermissions := [⟨"d", "visitor", "doc", "plan", "read", true⟩,
      .typeLevel "e" "keeper" "doc" "read"] }

def readers : List Role :=
  [.global "visitor" "Visitor", .global "clerk" "Clerk", .global "keeper" "Keeper"]

theorem matchRoles_exact_readingRoom :
    readingRoom.available = true ∧
    (∃ role, readingRoom.FirstLinked ⟨"doc", "*", "read"⟩ readers role ∧ role.id = "keeper") ∧
    (∃ role, readingRoom.FirstHolding ⟨"doc", "*", "read"⟩ readers role ∧ role.id = "keeper") ∧
    (∀ id, ∃ m, readingRoom.matchRoles .direct readers ⟨"doc", id, "read"⟩ = .ok (some m)) ∧
    ¬ ∃ r ∈ [Role.global "visitor" "Visitor"],
      readingRoom.DirectGrant r.id ⟨"doc", "*", "read"⟩ := by
  obtain ⟨⟨found, hnamed, -, hlinked⟩, ⟨found', hdirect, -, hholding⟩, hevery⟩ :=
    matchRoles_exact (s := readingRoom) rfl readers ⟨"doc", "*", "read"⟩
  obtain ⟨-, ⟨none', hvisitor, hcarries, -⟩, -⟩ :=
    matchRoles_exact (s := readingRoom) rfl [.global "visitor" "Visitor"] ⟨"doc", "*", "read"⟩
  have hkeeper : ∀ model, ∃ m, readingRoom.matchRoles model readers ⟨"doc", "*", "read"⟩ =
      .ok (some m) ∧ m.role = "keeper" := by
    intro model
    cases model
    · exact ⟨.named (.global "keeper" "Keeper"), by decide +kernel, rfl⟩
    · exact ⟨.direct (.global "keeper" "Keeper"), by decide +kernel, rfl⟩
  refine ⟨rfl, ?_, ?_, ?_, ?_⟩
  · obtain ⟨m, hm, hid⟩ := hkeeper .named
    obtain ⟨role, hfirst, rfl⟩ := hlinked m (Except.ok.inj (hnamed.symm.trans hm))
    exact ⟨role, hfirst, hid⟩
  · obtain ⟨m, hm, hid⟩ := hkeeper .direct
    obtain ⟨role, -, -, hfirst, rfl⟩ := hholding m (Except.ok.inj (hdirect.symm.trans hm))
    exact ⟨role, hfirst, hid⟩
  · obtain ⟨m, hm, -⟩ := hkeeper .direct
    refine (hevery .direct m hm).2.resolve_left ?_
    rintro ⟨p, hp, hsingle, hid⟩
    have hwide : p.isTypeLevel = true := by simp [ResourcePermission.isTypeLevel, hid,
      ResourcePermission.wildcard]
    rw [hsingle] at hwide
    cases hwide
  · have hnone : readingRoom.matchRoles .direct [.global "visitor" "Visitor"]
        ⟨"doc", "*", "read"⟩ = .ok none := by decide +kernel
    rw [← hcarries, Except.ok.inj (hvisitor.symm.trans hnone)]
    exact Bool.false_ne_true

end Store

end AccessControl
