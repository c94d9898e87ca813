import AccessControl.Proofs.Lasting

/-! Effective roles stay what they are until their bound, and what is allowed stays allowed until the
bound of the decision. The bound of effective roles is no earlier than it has to be: some window turns
there. -/

namespace AccessControl

lemma earliest_eq_some {x y : Option Instant} {v : Instant} (h : earliest x y = some v) :
    x = some v ∨ y = some v := by
  cases x with
  | none => exact Or.inr h
  | some a =>
    cases y with
    | none => exact Or.inl h
    | some b =>
      simp only [earliest, Instant.min] at h
      split at h
      · exact Or.inl h
      · exact Or.inr h

lemma foldl_earliest_eq_some {α : Type} {f : α → Option Instant} {rows : List α}
    {x : Option Instant} {v : Instant}
    (h : rows.foldl (fun bound a => earliest bound (f a)) x = some v) :
    x = some v ∨ ∃ a ∈ rows, f a = some v := by
  induction rows generalizing x with
  | nil => exact Or.inl h
  | cons a rows ih =>
    rcases ih h with hx | ⟨a', ha', hf⟩
    · rcases earliest_eq_some hx with hx | hf
      · exact Or.inl hx
      · exact Or.inr ⟨a, List.mem_cons_self, hf⟩
    · exact Or.inr ⟨a', List.mem_cons_of_mem _ ha', hf⟩

lemma before_of_ne {v : Instant} {bound : Option Instant} (h : ∀ t, t < v → Before t bound)
    (hne : bound ≠ some v) : Before v bound := by
  intro b hb
  by_contra hlt
  have hle : b ≤ v := Instant.not_lt.mp hlt
  by_cases hv : v ≤ b
  · exact hne (hb.trans (congrArg some (Instant.le_antisymm hle hv)))
  · have hself : b < b := h b (Instant.not_le.mp hv) b hb
    rw [Instant.lt_def] at hself
    omega

namespace Store

/-- The window of an active row opens or closes next at the instant. -/
inductive Turns (s : Store) (now v : Instant) : Prop
  | membership {m} : m ∈ s.memberships →
      GroupWalk.transition m.isActive m.window now = some v → Turns s now v
  | assignment {u} : u ∈ s.userRoles →
      GroupWalk.transition u.isActive u.window now = some v → Turns s now v
  | groupRole {g} : g ∈ s.groupRoles →
      GroupWalk.transition g.isActive g.window now = some v → Turns s now v
  | inheritance {e} : e ∈ s.inheritance →
      GroupWalk.transition e.isActive e.window now = some v → Turns s now v

variable {s : Store} {maxDepth : Nat} {principal : String} {ctx : Context} {v : Instant}

lemma turns_of_step {now : Instant} {w w' : GroupWalk}
    (h : GroupWalk.step s maxDepth now w = some w')
    (hw : ∀ v, w.validUntil = some v → s.Turns now v) :
    ∀ v, w'.validUntil = some v → s.Turns now v := by
  intro v hv
  cases GroupWalk.step_cases h with
  | tooDeep _ _ | again _ _ _ | pass _ _ _ _ => exact hw v hv
  | visit _ _ _ _ _ =>
    rcases foldl_earliest_eq_some hv with hv | ⟨e, he, hv⟩
    · exact hw v hv
    · exact .inheritance (List.mem_filter.mp he).1 hv

lemma turns_of_inherited {now : Instant} {roots : List String}
    (h : (GroupWalk.inherited s maxDepth now roots).validUntil = some v) : s.Turns now v := by
  have hroot : ∀ (w : GroupWalk) (root : String), (∀ v, w.validUntil = some v → s.Turns now v) →
      ∀ v, (GroupWalk.fromRoot s maxDepth now w root).validUntil = some v → s.Turns now v :=
    fun w root hw => Walk.run_preserves
      (P := fun w : GroupWalk => ∀ v, w.validUntil = some v → s.Turns now v) turns_of_step _ hw
  have hempty : ∀ v, GroupWalk.empty.validUntil = some v → s.Turns now v := by
    simp [GroupWalk.empty]
  exact List.foldlRecOn (motive := fun w : GroupWalk => ∀ v, w.validUntil = some v → s.Turns now v)
    roots (GroupWalk.fromRoot s maxDepth now) hempty (fun w hw root _ => hroot w root hw) v h

lemma turns_of_groupGrants {g role : String} {now : Instant}
    (h : (s.groupGrants g role now).2 = some v) : s.Turns now v := by
  rcases foldl_earliest_eq_some h with h | ⟨r, hr, hv⟩
  · cases h
  · obtain ⟨hr, hactive⟩ := List.mem_filter.mp hr
    rw [Bool.and_eq_true] at hactive
    exact .groupRole (List.mem_filter.mp hr).1 (by simpa [GroupWalk.transition, hactive.2] using hv)

lemma turns_of_validUntil (h : (s.effectiveRoles maxDepth principal ctx).validUntil = some v) :
    s.Turns ctx.now v := by
  by_contra hn
  -- If no window turns at the bound, nothing changes there, and the bound would lie after itself.
  have hearlier : ∀ t, t < v → s.Stands maxDepth principal ctx t := by
    intro t ht
    apply before_validUntil.mp
    rw [h]
    exact Before.some.mpr ht
  have hstands : s.Stands maxDepth principal ctx v := by
    constructor
    · intro m hm
      apply before_of_ne (fun t ht => (hearlier t ht).joined m hm)
      intro hv
      apply hn
      exact .membership (List.mem_filter.mp hm).1 hv
    · intro u hu
      apply before_of_ne (fun t ht => (hearlier t ht).assigned u hu)
      intro hv
      apply hn
      exact .assignment (List.mem_filter.mp hu).1 hv
    · intro u hu he g hg hm
      apply before_of_ne (fun t ht => (hearlier t ht).sourced u hu he g hg hm)
      intro hv
      apply hn
      exact turns_of_groupGrants hv
    · exact before_of_ne (fun t ht => (hearlier t ht).walk) fun hv => hn (turns_of_inherited hv)
    · intro g hg r hr
      apply before_of_ne (fun t ht => (hearlier t ht).given g hg r hr)
      intro hv
      apply hn
      exact .groupRole (List.mem_filter.mp hr).1 hv
  have hself : v < v := before_validUntil.mpr hstands v h
  rw [Instant.lt_def] at hself
  omega

/-- Until the bound that it carries, resolution gives the same role set again, bound and all; where
there is a bound, the window of some active row turns. -/
theorem resolved_until {roles : EffectiveRoles}
    (h : s.read (s.effectiveRoles maxDepth principal ctx) = .ok roles) :
    (∀ t, ctx.now ≤ t → (∀ v, roles.validUntil = some v → t < v) →
        s.read (s.effectiveRoles maxDepth principal { ctx with now := t }) = .ok roles) ∧
      ∀ v, roles.validUntil = some v → s.Turns ctx.now v := by
  obtain ⟨ha, rfl⟩ : s.available = true ∧ s.effectiveRoles maxDepth principal ctx = roles := by
    rw [read, call] at h
    split at h
    · rename_i ha
      exact ⟨ha, Except.ok.inj h⟩
    · cases h
  refine ⟨fun t ht hb => ?_, fun v hv => turns_of_validUntil hv⟩
  rw [effectiveRoles_steady ht hb, read_of_available ha]

def passing : Store :=
  { Store.empty with
    roles := .ofList [.global "reader" "Reader"]
    userRoles := [{ UserRole.direct "u" "ada" "reader" with window := .endingAt ⟨60, 0⟩ }]
    memberships := [{ Membership.ofUser "m" "team" "ada" with window := .startingAt ⟨90, 0⟩ }] }

theorem resolved_until_passing :
    ∃ roles, passing.read (passing.effectiveRoles 8 "ada" ⟨none, none, ⟨0, 0⟩⟩) = .ok roles ∧
      roles.ids = ["reader"] ∧ roles.validUntil = some ⟨60, 0⟩ ∧
      passing.read (passing.effectiveRoles 8 "ada" ⟨none, none, ⟨59, 0⟩⟩) = .ok roles ∧
      passing.Turns ⟨0, 0⟩ ⟨60, 0⟩ := by
  have h := read_of_available (s := passing) rfl
    (passing.effectiveRoles 8 "ada" ⟨none, none, ⟨0, 0⟩⟩)
  have hbound : (passing.effectiveRoles 8 "ada" ⟨none, none, ⟨0, 0⟩⟩).validUntil =
      some ⟨60, 0⟩ := by decide +kernel
  refine ⟨_, h, by decide +kernel, hbound, ?_, (resolved_until h).2 _ hbound⟩
  refine (resolved_until h).1 ⟨59, 0⟩ (by decide) fun v hv => ?_
  obtain rfl := Option.some.inj (hbound.symm.trans hv)
  decide

end Store

namespace Engine

variable {σ : Type} [CacheService σ] {e : Engine σ} {request : AccessRequest} {ctx : Context}
  {d : Decision}

lemma decided_of_evaluate (hc : e.cache = none) (hm : request.missingField = none)
    (h : (e.evaluate request ctx).1 = .ok d) :
    e.store.available = true ∧ ∃ id d₀, e.store.decide e.models
      (e.store.effectiveRoles e.maxDepth request.principal ctx) request ctx id = .ok d₀ ∧
        d.allowed = d₀.allowed ∧ d.validUntil = d₀.validUntil := by
  have ha := available_of_evaluate hc hm h
  obtain ⟨d₀, hd₀, -⟩ := Store.decide_ok ha e.models
    (e.store.effectiveRoles e.maxDepth request.principal ctx) request ctx e.freshId.1
  have hdecide : e.decide request ctx = (.ok d₀, e.freshId.2) := by
    rw [decide_uncached hc, if_pos ha, hd₀]
  rw [evaluate_of_miss hm (cachedDecision_uncached hc _ _) hdecide] at h
  obtain rfl := Except.ok.inj h
  exact ⟨ha, _, d₀, hd₀, rfl, rfl⟩

/-- What is allowed is allowed again at every later instant before the bound of the decision. -/
theorem allowed_until (hc : e.cache = none) (h : (e.evaluate request ctx).1 = .ok d)
    (hallowed : d.allowed = true) {t : Instant} (ht : ctx.now ≤ t)
    (hb : ∀ v, d.validUntil = some v → t < v) :
    ∃ d', (e.evaluate request { ctx with now := t }).1 = .ok d' ∧ d'.allowed = true := by
  have hm : request.missingField = none := by
    cases hm : request.missingField with
    | none => rfl
    | some field =>
      rw [evaluate_of_missing hm] at h
      obtain rfl := Except.ok.inj h
      simp at hallowed
  obtain ⟨ha, id, d₀, hd₀, hsame, hbound⟩ := decided_of_evaluate hc hm h
  obtain ⟨d₁, hd₁, hallows, hbasis, -⟩ := Store.decide_ok ha e.models
    (e.store.effectiveRoles e.maxDepth request.principal ctx) request ctx id
  obtain rfl := Except.ok.inj (hd₀.symm.trans hd₁)
  obtain ⟨bound, hrests, hv⟩ := hbasis (hsame ▸ hallowed)
  have hbefore : Before t (earliest bound
      (e.store.effectiveRoles e.maxDepth request.principal ctx).validUntil) :=
    hv ▸ hbound ▸ hb
  obtain ⟨hrest, hroles⟩ := Before.earliest.mp hbefore
  have hsteady := Store.effectiveRoles_steady ht hroles
  have hlater := ((hallows.mp (hsame ▸ hallowed)).later ha hrests ht hrest (.refl _))
  obtain ⟨d', hd', hiff⟩ := evaluate_uncached { ctx with now := t } hc hm ha
  refine ⟨d', hd', hiff.mpr ?_⟩
  rw [Store.AllowsNow, hsteady]
  exact hlater

def clinic : Engine MemoryCache where
  config := .standard
  models := [.named, .direct]
  store :=
    { Store.empty with
      roles := .ofList [.global "reader" "Reader"]
      bindings := .ofList [{ Binding.attach "b" .user "ada" (.role "reader") "file" "acme" with
        caveat := some ((Caveat.unconstrained.withWindow (.endingAt ⟨90, 0⟩)).requireAttribute
          "ward" (.string "north")) }]
      attributes := [{ Attribute.ofPrincipal "n" "ada" "ward" (.string "north") with
        expiresAt := some ⟨60, 0⟩ }]
      resourcePermissions := [.typeLevel "p" "reader" "file" "read"] }
  cache := none
  audit := none
  metrics := none
  ids := ⟨0⟩
  elapsed := .zero

theorem allowed_until_clinic :
    let request : AccessRequest := ⟨"ada", "file", "7", "read"⟩
    let ctx (seconds : Int) : Context := ⟨some "acme", none, ⟨seconds, 0⟩⟩
    (∃ d, (clinic.evaluate request (ctx 0)).1 = .ok d ∧ d.allowed = true ∧
        d.validUntil = some ⟨60, 0⟩) ∧
      ∃ d, (clinic.evaluate request (ctx 59)).1 = .ok d ∧ d.allowed = true := by
  intro request ctx
  have h : (clinic.evaluate request (ctx 0)).1.toOption.any
      (fun d => d.allowed && d.validUntil == some ⟨60, 0⟩) = true := by decide +kernel
  cases hd : (clinic.evaluate request (ctx 0)).1 with
  | error fault => simp [hd, Except.toOption] at h
  | ok d =>
    obtain ⟨hallowed, hbound⟩ : d.allowed = true ∧ d.validUntil = some ⟨60, 0⟩ := by
      simpa [hd, Except.toOption] using h
    refine ⟨⟨d, rfl, hallowed, hbound⟩, allowed_until rfl hd hallowed (t := ⟨59, 0⟩) (by decide)
      fun v hv => ?_⟩
    obtain rfl := Option.some.inj (hbound.symm.trans hv)
    decide

end Engine

end AccessControl
