import AccessControl.Proofs.Globs
import AccessControl.Proofs.KeySeparation

/-! Patterns of a change against the keys it concerns. Parts of keys are clean: they hold neither
the separator nor a line feed, which no star stands for. -/

namespace AccessControl

namespace CacheKey

/-- Free of the separator and of line feeds. -/
structure Clean (part : String) : Prop where
  plain : Plain part
  unbroken : '\n' ∉ part.toList

instance (part : String) : Decidable (Clean part) :=
  decidable_of_iff (Plain part ∧ '\n' ∉ part.toList) ⟨fun h => ⟨h.1, h.2⟩, fun h => ⟨h.1, h.2⟩⟩

end CacheKey

open CacheKey

structure Context.Clean (ctx : Context) : Prop where
  organization : ∀ o, ctx.organization = some o → CacheKey.Clean o
  group : ∀ g, ctx.group = some g → CacheKey.Clean g
  unmarked : ¬ Marked ctx

lemma Context.Clean.at {ctx : Context} (h : ctx.Clean) (now : Instant) :
    Context.Clean { ctx with now := now } :=
  ⟨h.organization, h.group, h.unmarked⟩

instance (ctx : Context) : Decidable ctx.Clean :=
  decidable_of_iff ((∀ o ∈ ctx.organization, CacheKey.Clean o) ∧
    (∀ g ∈ ctx.group, CacheKey.Clean g) ∧ ¬ Marked ctx)
    ⟨fun h => ⟨h.1, h.2.1, h.2.2⟩, fun h => ⟨h.1, h.2, h.3⟩⟩

structure AccessRequest.Clean (r : AccessRequest) : Prop where
  principal : CacheKey.Clean r.principal
  type : CacheKey.Clean r.type
  resource : CacheKey.Clean r.resource
  action : CacheKey.Clean r.action

instance (r : AccessRequest) : Decidable r.Clean :=
  decidable_of_iff (CacheKey.Clean r.principal ∧ CacheKey.Clean r.type ∧
    CacheKey.Clean r.resource ∧ CacheKey.Clean r.action)
    ⟨fun h => ⟨h.1, h.2.1, h.2.2.1, h.2.2.2⟩, fun h => ⟨h.1, h.2, h.3, h.4⟩⟩

namespace CacheKey

inductive About : String → String → Context → Prop
  | roles {principal : String} {ctx : Context} : Clean principal → ctx.Clean →
      About (CacheKey.roles principal ctx) principal ctx
  | decision {r : AccessRequest} {ctx : Context} : r.Clean → ctx.Clean →
      About (CacheKey.decision r ctx) r.principal ctx

lemma clean_absent : Clean absent := by decide

lemma clean_getD {part : Option String} (h : ∀ p, part = some p → Clean p) :
    Clean (part.getD absent) := by
  cases part with
  | none => exact clean_absent
  | some p => exact h p rfl

lemma toList_roles (principal : String) (ctx : Context) : (roles principal ctx).toList =
    ['r', 'o', 'l', 'e', 's', ':'] ++ (principal.toList ++ (':' ::
      ((ctx.organization.getD absent).toList ++ (':' :: (ctx.group.getD absent).toList)))) := by
  simp [roles, segments, contextParts, String.intercalate_cons_cons]

lemma toList_decision (r : AccessRequest) (ctx : Context) : (decision r ctx).toList =
    ['d', 'e', 'c', 'i', 's', 'i', 'o', 'n', ':'] ++ (r.principal.toList ++ (':' ::
      ((ctx.organization.getD absent).toList ++ (':' :: ((ctx.group.getD absent).toList ++ (':' ::
        (r.type.toList ++ (':' :: (r.resource.toList ++ (':' :: r.action.toList))))))))))  := by
  simp [decision, segments, contextParts, String.intercalate_cons_cons]

def Unbroken (parts : List String) : Prop :=
  ∀ part ∈ parts, '\n' ∉ part.toList

section patterns

variable {principal group : String} {r : AccessRequest} {ctx : Context}

lemma matches_rolesOf (h : Unbroken (contextParts ctx)) :
    globMatches (rolesOf principal) (roles principal ctx) = true := by
  apply globMatches_of_fits
  have hstar := Fits.any ((ctx.organization.getD absent).toList ++
    (':' :: (ctx.group.getD absent).toList)) (by simpa [Unbroken, contextParts] using h)
  rw [toList_roles]
  simpa [rolesOf] using
    (Fits.refl "roles:".toList).append ((Fits.refl principal.toList).append (.char ':' hstar))

lemma matches_decisionsOf (h : Unbroken (contextParts ctx ++ [r.type, r.resource, r.action])) :
    globMatches (decisionsOf r.principal) (decision r ctx) = true := by
  apply globMatches_of_fits
  have hstar := Fits.any ((ctx.organization.getD absent).toList ++
    (':' :: ((ctx.group.getD absent).toList ++ (':' :: (r.type.toList ++ (':' ::
      (r.resource.toList ++ (':' :: r.action.toList)))))))) (by
        simpa [Unbroken, contextParts] using h)
  rw [toList_decision]
  simpa [decisionsOf] using (Fits.refl "decision:".toList).append
    ((Fits.refl r.principal.toList).append (.char ':' hstar))

lemma matches_rolesWithin (hg : ctx.group = some group)
    (h : Unbroken [principal, ctx.organization.getD absent]) :
    globMatches (rolesWithin group) (roles principal ctx) = true := by
  apply globMatches_of_fits
  have hctx : ctx.group.getD absent = group := by simp [hg]
  rw [toList_roles, hctx]
  simpa [rolesWithin] using (Fits.refl "roles:".toList).append
    (.star _ (h _ (by simp)) (.char ':' (.star _ (h _ (by simp))
      (.char ':' (.refl group.toList)))))

lemma matches_decisionsWithin (hg : ctx.group = some group)
    (h : Unbroken [r.principal, ctx.organization.getD absent, r.type, r.resource, r.action]) :
    globMatches (decisionsWithin group) (decision r ctx) = true := by
  apply globMatches_of_fits
  have hctx : ctx.group.getD absent = group := by simp [hg]
  have hstar := Fits.any (r.type.toList ++ (':' :: (r.resource.toList ++
    (':' :: r.action.toList)))) (by
      simpa using ⟨h _ (by simp), h _ (by simp), h _ (by simp)⟩)
  rw [toList_decision, hctx]
  simpa [decisionsWithin] using (Fits.refl "decision:".toList).append
    (.star _ (h _ (by simp)) (.char ':' (.star _ (h _ (by simp))
      (.char ':' ((Fits.refl group.toList).append (.char ':' hstar))))))

end patterns

lemma unbroken_contextParts {ctx : Context} (h : ctx.Clean) : Unbroken (contextParts ctx) := by
  simpa [Unbroken, contextParts] using
    ⟨(clean_getD h.organization).unbroken, (clean_getD h.group).unbroken⟩

lemma About.principal_matches {key principal : String} {ctx : Context}
    (h : About key principal ctx) :
    globMatches (decisionsOf principal) key = true ∨ globMatches (rolesOf principal) key = true := by
  cases h with
  | roles hp hctx => exact Or.inr (matches_rolesOf (unbroken_contextParts hctx))
  | decision hr hctx =>
    refine Or.inl (matches_decisionsOf fun part hm => ?_)
    rcases List.mem_append.mp hm with hm | hm
    · exact unbroken_contextParts hctx part hm
    · simp only [List.mem_cons, List.not_mem_nil, or_false] at hm
      rcases hm with rfl | rfl | rfl
      · exact hr.type.unbroken
      · exact hr.resource.unbroken
      · exact hr.action.unbroken

lemma About.group_matches {key principal group : String} {ctx : Context}
    (h : About key principal ctx) (hg : ctx.group = some group) :
    globMatches (rolesWithin group) key = true ∨ globMatches (decisionsWithin group) key = true := by
  cases h with
  | roles hp hctx =>
    refine Or.inl (matches_rolesWithin hg ?_)
    simpa [Unbroken] using ⟨hp.unbroken, (clean_getD hctx.organization).unbroken⟩
  | decision hr hctx =>
    refine Or.inr (matches_decisionsWithin hg ?_)
    simpa [Unbroken] using ⟨hr.principal.unbroken, (clean_getD hctx.organization).unbroken,
      hr.type.unbroken, hr.resource.unbroken, hr.action.unbroken⟩

lemma About.unbroken {key principal : String} {ctx : Context} (h : About key principal ctx) :
    '\n' ∉ key.toList := by
  cases h with
  | roles hp hctx =>
    rw [toList_roles]
    simpa using ⟨hp.unbroken, (clean_getD hctx.organization).unbroken,
      (clean_getD hctx.group).unbroken⟩
  | decision hr hctx =>
    rw [toList_decision]
    simpa using ⟨hr.principal.unbroken, (clean_getD hctx.organization).unbroken,
      (clean_getD hctx.group).unbroken, hr.type.unbroken, hr.resource.unbroken,
      hr.action.unbroken⟩

lemma About.all_matches {key principal : String} {ctx : Context} (h : About key principal ctx) :
    globMatches allRoles key = true ∨ globMatches allDecisions key = true := by
  have hkey := h.unbroken
  cases h with
  | roles hp hctx =>
    refine Or.inl (globMatches_of_fits ?_)
    rw [toList_roles] at hkey ⊢
    exact (Fits.refl "roles:".toList).append (.any _ fun hm => hkey (List.mem_append_right _ hm))
  | decision hr hctx =>
    refine Or.inr (globMatches_of_fits ?_)
    rw [toList_decision] at hkey ⊢
    exact (Fits.refl "decision:".toList).append (.any _ fun hm => hkey (List.mem_append_right _ hm))

lemma toList_marker (role key : String) : (marker role key).toList =
    ['r', 'o', 'l', 'e', ':'] ++ (role.toList ++ (':' :: ['d', 'e', 'p', ':'] ++ key.toList)) := by
  simp [marker, markersOf]

lemma marker_injective {role role' key key' : String} (h : Plain role) (h' : Plain role')
    (he : marker role key = marker role' key') : role = role' ∧ key = key' := by
  have he := congrArg String.toList he
  rw [toList_marker, toList_marker, List.append_cancel_left_eq] at he
  obtain ⟨hr, hk⟩ := split_unique h h' he
  exact ⟨String.toList_inj.mp hr, String.toList_inj.mp (List.append_cancel_left hk)⟩

lemma About.ne_marker {key principal : String} {ctx : Context} (h : About key principal ctx)
    (role key' : String) : key ≠ marker role key' := by
  intro he
  have he := congrArg String.toList he
  rw [toList_marker] at he
  cases h with
  | roles => simp [toList_roles] at he
  | decision => simp [toList_decision] at he

lemma marker_matches {role key : String} (h : '\n' ∉ key.toList) :
    globMatches (markersOf role ++ "*") (marker role key) = true := by
  apply globMatches_of_fits
  rw [marker, String.toList_append, String.toList_append]
  exact (Fits.refl _).append (.any _ h)

lemma plain_rolesParts {principal : String} {ctx : Context} (hp : Clean principal)
    (h : ctx.Clean) : ∀ part ∈ rolesParts principal ctx, Plain part := by
  simp only [rolesParts, contextParts, List.mem_cons, List.not_mem_nil, or_false]
  rintro part (rfl | rfl | rfl)
  · exact hp.plain
  · exact (clean_getD h.organization).plain
  · exact (clean_getD h.group).plain

lemma roles_injective {principal principal' : String} {ctx ctx' : Context} (hp : Clean principal)
    (h : ctx.Clean) (h' : ctx'.Clean) (he : roles principal' ctx' = roles principal ctx) :
    principal' = principal ∧ ctx'.organization = ctx.organization ∧ ctx'.group = ctx.group := by
  obtain ⟨hp, hctx⟩ := (roles_eq_iff (plain_rolesParts hp h)).mp he
  exact ⟨hp, contextParts_inj h.unmarked h'.unmarked hctx⟩

lemma decision_injective {r r' : AccessRequest} {ctx ctx' : Context} (hr : r.Clean)
    (h : ctx.Clean) (h' : ctx'.Clean) (he : decision r' ctx' = decision r ctx) :
    r' = r ∧ ctx'.organization = ctx.organization ∧ ctx'.group = ctx.group := by
  have hplain : ∀ part ∈ decisionParts r ctx, Plain part := by
    simp only [decisionParts, List.mem_append, List.mem_cons, List.not_mem_nil, or_false]
    rintro part (hm | rfl | rfl | rfl)
    · exact plain_rolesParts hr.principal h part hm
    · exact hr.type.plain
    · exact hr.resource.plain
    · exact hr.action.plain
  obtain ⟨hr, hctx⟩ := (decision_eq_iff hplain).mp he
  exact ⟨hr, contextParts_inj h.unmarked h'.unmarked hctx⟩

lemma roles_ne_decision (principal : String) (ctx : Context) (r : AccessRequest) (ctx' : Context) :
    roles principal ctx ≠ decision r ctx' := by
  intro he
  have he := congrArg String.toList he
  simp [toList_roles, toList_decision] at he

lemma roles_ne_marker (principal : String) (ctx : Context) (role key : String) :
    roles principal ctx ≠ marker role key := by
  intro he
  have he := congrArg String.toList he
  simp [toList_roles, toList_marker] at he

lemma decision_ne_marker (r : AccessRequest) (ctx : Context) (role key : String) :
    decision r ctx ≠ marker role key := by
  intro he
  have he := congrArg String.toList he
  simp [toList_decision, toList_marker] at he

end CacheKey

end AccessControl
