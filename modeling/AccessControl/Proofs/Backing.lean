import AccessControl.Proofs.Maintaining

/-! A kept role set is backed by the store while the store grants all that it grants, up to the bound
that it carries and from no other roles than it names. A kept decision to allow is backed in the same
way. What is found in the store is backed, and an edit leaves backed whatever its announcement does
not reach. -/

namespace AccessControl

namespace Store

structure BacksRoles (s : Store) (maxDepth : Nat) (now : Instant) (principal : String)
    (ctx : Context) (v : EffectiveRoles) : Prop where
  bound : RegularBound v.validUntil
  ends : ∀ g ∈ v.conditional, RegularBound (g.binding.caveat.bind (·.endsAt))
  under : ∀ t, now ≤ t → Before t v.validUntil → v.Under
    ((s.keeping v.names.contains).effectiveRoles maxDepth principal { ctx with now := t })

def BacksDecision (s : Store) (models : List GrantModel) (maxDepth : Nat) (now : Instant)
    (request : AccessRequest) (ctx : Context) (d : Decision) : Prop :=
  d.allowed = true → ∀ t, now ≤ t → Before t d.validUntil →
    (s.keeping d.roleIds.contains).AllowsNow models maxDepth request { ctx with now := t }

variable {s s' : Store} {models : List GrantModel} {maxDepth : Nat} {now now' : Instant}
  {principal : String} {request : AccessRequest} {ctx : Context} {v v' : EffectiveRoles}
  {d d' : Decision}

lemma BacksRoles.later (h : s.BacksRoles maxDepth now principal ctx v) (hn : now ≤ now') :
    s.BacksRoles maxDepth now' principal ctx v :=
  ⟨h.bound, h.ends, fun t ht => h.under t (Instant.le_trans hn ht)⟩

lemma BacksRoles.at (h : s.BacksRoles maxDepth now principal ctx v) (t : Instant) :
    s.BacksRoles maxDepth now principal { ctx with now := t } v :=
  ⟨h.bound, h.ends, h.under⟩

lemma BacksDecision.later (h : s.BacksDecision models maxDepth now request ctx d)
    (hn : now ≤ now') : s.BacksDecision models maxDepth now' request ctx d :=
  fun ha t ht => h ha t (Instant.le_trans hn ht)

lemma BacksRoles.edit {changes : List Change} (h : s.BacksRoles maxDepth now principal ctx v)
    (he : s.Edit s' changes)
    (hn : ∀ c ∈ changes, ¬ Reached (s'.staleItems maxDepth c) v.names principal ctx) :
    s'.BacksRoles maxDepth now principal ctx v := by
  refine ⟨h.bound, h.ends, fun t ht hb => ?_⟩
  have hun : s.Unmoved s' maxDepth v.names principal { ctx with now := t } := he.unmoved hn
  rw [(hun.keeping v.names.contains).effectiveRoles (he.only_roles hn)]
  exact h.under t ht hb

lemma BacksDecision.edit {changes : List Change}
    (h : s.BacksDecision models maxDepth now request ctx d) (ha : s.available = true)
    (he : s.Edit s' changes)
    (hn : ∀ c ∈ changes, ¬ Reached (s'.staleItems maxDepth c) d.roleIds request.principal ctx) :
    s'.BacksDecision models maxDepth now request ctx d := by
  intro hd t ht hb
  have hun : s.Unmoved s' maxDepth d.roleIds request.principal { ctx with now := t } :=
    he.unmoved hn
  exact (hun.allowsNow_keeping (he.only_roles hn) ha (he.available.trans ha)).mpr (h hd t ht hb)

lemma under_later {t : Instant} (ht : ctx.now ≤ t)
    (hb : Before t (s.effectiveRoles maxDepth principal ctx).validUntil) :
    (s.effectiveRoles maxDepth principal ctx).Under
      ((s.keeping (s.effectiveRoles maxDepth principal ctx).names.contains).effectiveRoles maxDepth
        principal { ctx with now := t }) := by
  have hsteady := effectiveRoles_steady ht hb
  have hkeep : (s.effectiveRoles maxDepth principal { ctx with now := t }).Under
      ((s.keeping (s.effectiveRoles maxDepth principal ctx).names.contains).effectiveRoles maxDepth
        principal { ctx with now := t }) :=
    under_keeping fun id hid => by simpa [hsteady] using hid
  rwa [hsteady] at hkeep

lemma backsRoles_effectiveRoles (hs : s.Cacheable) : s.BacksRoles maxDepth ctx.now principal ctx
    (s.effectiveRoles maxDepth principal ctx) := by
  refine ⟨hs.timed.validUntil, fun g hg b hb => ?_, fun t ht hb => under_later ht hb⟩
  obtain ⟨c, hc, hb⟩ := Option.bind_eq_some_iff.mp hb
  obtain ⟨w, hw, hends⟩ := Option.bind_eq_some_iff.mp hb
  exact ((hs.caveats.effectiveRoles g hg c hc).window w hw).ends b hends

lemma backsRoles_of_ofText? (hs : s.Cacheable)
    (h : EffectiveRoles.ofText? (s.effectiveRoles maxDepth principal ctx).json.written = some v) :
    s.BacksRoles maxDepth ctx.now principal ctx v := by
  have ha := EffectiveRoles.alike_of_ofText? hs.caveats.effectiveRoles h
  have hvalid := ha.validUntil hs.timed.validUntil
  refine ⟨hvalid ▸ hs.timed.validUntil, fun g hg => ?_, fun t ht hb => ?_⟩
  · obtain ⟨g', -, hg'⟩ := (EffectiveRoles.exists_alike ha.conditional).2 g hg
    exact hg'.ends
  · rw [hvalid] at hb
    rw [ha.names]
    exact ha.over.trans (under_later ht hb)

lemma BacksRoles.decision (hv : s.BacksRoles maxDepth ctx.now request.principal ctx v)
    (hs : s.Cacheable) (ha : s.available = true) {id : String}
    (hd : s.decide models v request ctx id = .ok d) {elapsed : Duration}
    (h : Decision.ofText? { d with duration := elapsed }.json.written = some d') :
    s.BacksDecision models maxDepth ctx.now request ctx d' := by
  obtain ⟨d₀, hd₀, hallows, hbasis, -⟩ := decide_ok ha models v request ctx id
  obtain rfl := Except.ok.inj (hd₀.symm.trans hd)
  have halike := Decision.alike_of_ofText? h
  intro hd' t ht hb
  have hallowed : d₀.allowed = true := halike.allowed ▸ hd'
  obtain ⟨bound, hbasis, hvalid⟩ := hbasis hallowed
  have hregular : RegularBound d₀.validUntil :=
    hvalid ▸ (hs.basis hv.ends ha hbasis).earliest hv.bound
  rw [halike.validUntil hregular] at hb
  have hb : Before t d₀.validUntil := hb
  rw [hvalid, Before.earliest] at hb
  have hkeep : d'.roleIds.contains = v.names.contains := by
    have hids : d'.roleIds = d₀.roleIds := halike.roleIds
    funext id
    rw [Bool.eq_iff_iff, List.contains_iff_mem, List.contains_iff_mem, hids]
    exact mem_roleIds_of_decide ha hd
  rw [hkeep]
  exact (allows_keeping ha).mpr
    ((hallows.mp hallowed).later ha hbasis ht hb.1 (hv.under t ht hb.2))

lemma BacksRoles.allowsNow (hv : s.BacksRoles maxDepth ctx.now request.principal ctx v)
    (ha : s.available = true) (hb : Before ctx.now v.validUntil)
    (h : s.Allows models v request ctx) : s.AllowsNow models maxDepth request ctx :=
  h.mono ha ((hv.under ctx.now (Instant.le_refl _) hb).trans (keeping_under s _ _ _ _))

end Store

end AccessControl
