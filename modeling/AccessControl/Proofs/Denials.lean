import AccessControl.Proofs.Validity

/-! A denial lasts until its bound, unless an attribute that hid what a binding requires expires before
it: the bound of a denial knows the windows that are still to open, and no attributes. -/

namespace AccessControl

namespace Store

/-- Of the attributes with a key that is required, one that does not agree counts now and has expired
at the later instant; the one that counts then agrees. -/
def Unveils (s : Store) (b : Binding) (principal : String) (now t : Instant) : Prop :=
  ∃ c, b.caveat = some c ∧ ∃ r ∈ c.required, ∃ cover shown expiry,
    CaveatCheck.choose (CaveatCheck.candidates s principal b.organization now) r.key =
      some cover ∧ r.expected.agrees cover.value = false ∧
    cover.expiresAt = some expiry ∧ expiry ≤ t ∧
    CaveatCheck.choose (CaveatCheck.candidates s principal b.organization t) r.key =
      some shown ∧ r.expected.agrees shown.value = true

variable {s : Store} {models : List GrantModel} {roles : EffectiveRoles}
  {request : AccessRequest} {ctx : Context} {now t : Instant}

lemma choose_earlier {principal organization key : String} {a : Attribute} (ht : now ≤ t)
    (h : CaveatCheck.choose (CaveatCheck.candidates s principal organization t) key = some a) :
    ∃ a', CaveatCheck.choose (CaveatCheck.candidates s principal organization now) key =
      some a' := by
  apply Option.isSome_iff_exists.mp
  rw [CaveatCheck.choose, List.find?_isSome]
  rw [CaveatCheck.choose] at h
  have hkey := List.find?_some h
  have hmem := List.mem_of_find?_eq_some h
  rw [List.mem_reverse, CaveatCheck.candidates_later ht, List.mem_filter] at hmem
  exact ⟨a, List.mem_reverse.mpr hmem.1, hkey⟩

lemma contains_earlier {w : TimeWindow} (ht : now ≤ t) (h : w.contains t = true)
    (hb : Before t (w.startsAt.filter fun s => now < s)) : w.contains now = true := by
  simp only [TimeWindow.contains, Bool.and_eq_true, Option.all_eq_true, decide_eq_true_eq] at h ⊢
  refine ⟨fun start hs => ?_, fun e he => Instant.le_trans ht (h.2 e he)⟩
  by_contra hlater
  have hlt : now < start := Instant.not_le.mp hlater
  have hbefore : t < start := hb start (by simp [hs, hlt])
  exact Instant.not_le.mpr hbefore (h.1 start hs)

lemma unveils_of_passes {b : Binding} {principal : String} (ht : now ≤ t)
    (hfails : ¬ s.CaveatPasses b principal now) (hpasses : s.CaveatPasses b principal t)
    (hb : Before t (Rejections.startsLater b now)) : s.Unveils b principal now t := by
  simp only [CaveatPasses, not_forall] at hfails
  obtain ⟨c, hc, hfails⟩ := hfails
  obtain ⟨hwindow, hmeets⟩ := hpasses c hc
  have hnow : ∀ w, c.window = some w → w.contains now = true := fun w hw =>
    contains_earlier ht (hwindow w hw) (by simpa [Rejections.startsLater, hc, hw] using hb)
  have hunmet : ¬ CaveatCheck.Meets (CaveatCheck.candidates s principal b.organization now)
      c.required := fun hm => hfails ⟨hnow, hm⟩
  simp only [CaveatCheck.Meets, not_forall, not_exists, not_and] at hunmet
  obtain ⟨r, hr, hunmet⟩ := hunmet
  obtain ⟨shown, hshown, hagrees⟩ := hmeets r hr
  obtain ⟨cover, hcover⟩ := choose_earlier ht hshown
  have hdiffers : ¬ r.expected.agrees cover.value = true := hunmet cover hcover
  have hexpired : ¬ Before t cover.expiresAt := by
    intro hstays
    have hsame := CaveatCheck.choose_later ht hcover hstays
    obtain rfl := Option.some.inj (hsame.symm.trans hshown)
    exact hdiffers hagrees
  simp only [Before, not_forall] at hexpired
  obtain ⟨expiry, he, hle⟩ := hexpired
  exact ⟨c, hc, r, hr, cover, shown, expiry, hcover, Bool.eq_false_iff.mpr hdiffers, he,
    Instant.not_lt.mp hle, hshown, hagrees⟩

def NoneOpens (s : Store) (request : AccessRequest) (now t : Instant)
    (grants : List ConditionalGrant) : Prop :=
  ∀ g ∈ grants, g.binding.appliesTo request.type request.resource = true →
    ¬ s.CaveatPasses g.binding request.principal now →
      Before t (Rejections.startsLater g.binding now)

lemma noneOpens_cons {g : ConditionalGrant} {rest : List ConditionalGrant} :
    s.NoneOpens request now t (g :: rest) ↔
      (g.binding.appliesTo request.type request.resource = true →
        ¬ s.CaveatPasses g.binding request.principal now →
          Before t (Rejections.startsLater g.binding now)) ∧ s.NoneOpens request now t rest :=
  List.forall_mem_cons

lemma before_notBefore (ha : s.available = true) {id : String} {grants : List ConditionalGrant}
    {r r' : Rejections}
    (h : s.decideBindings models roles request ctx id grants r = .ok (.inr r')) :
    Before t r'.notBefore ↔ Before t r.notBefore ∧ s.NoneOpens request ctx.now t grants := by
  induction grants generalizing r with
  | nil =>
    obtain rfl := Sum.inr.inj (Except.ok.inj h)
    simp [NoneOpens]
  | cons g rest ih =>
    rw [noneOpens_cons]
    rw [decideBindings] at h
    split at h
    · rename_i happlies
      obtain ⟨outcome, hcaveat, hpass⟩ := checkCaveat_ok ha g.binding request.principal ctx
      by_cases hp : outcome.passed = true
      · obtain ⟨search, hs, -⟩ := searchBinding_ok ha models g request.grant ctx id r.trace
        simp only [hcaveat, hs, hp, bind, Except.bind, if_true] at h
        cases hfound : search.found with
        | some d => simp [hfound] at h
        | none =>
          simp only [hfound] at h
          rw [ih h]
          have hpasses : s.CaveatPasses g.binding request.principal ctx.now := hpass.mp hp
          simp [hpasses]
      · simp only [hcaveat, hp, bind, Except.bind] at h
        rw [ih h]
        have hfails : ¬ s.CaveatPasses g.binding request.principal ctx.now :=
          fun hc => hp (hpass.mpr hc)
        simp [Rejections.caveatFailed, happlies, hfails, and_assoc]
    · rename_i happlies
      rw [ih h]
      simp [Rejections.outOfScope, happlies]

lemma before_of_denied (ha : s.available = true) {id : String} {d : Decision}
    (h : s.decide models roles request ctx id = .ok d) (hdenied : d.allowed = false) :
    Before t d.validUntil ↔ Before t roles.validUntil ∧
      (roles.isEmpty = false → s.NoneOpens request ctx.now t roles.conditional) := by
  obtain ⟨d', hd', hcases⟩ := decide_cases ha models roles request ctx id
  obtain rfl := Except.ok.inj (h.symm.trans hd')
  cases hcases with
  | noRoles he => simp [he, Decision.holdingUntil]
  | roles he hc => cases hdenied
  | binding he hno hr =>
    exact absurd (settled_of_decideBindings ha hr).1 (by simp [hdenied])
  | refused he hno hr =>
    simp only [Decision.holdingUntil, Before.earliest, before_notBefore ha hr]
    simp [he, and_comm]

end Store

namespace Engine

variable {σ : Type} [CacheService σ] {e : Engine σ} {request : AccessRequest} {ctx : Context}
  {d : Decision}

/-- What is denied is decided again at every later instant before the bound of the decision, and is
allowed then exactly if an attribute expired that hid what a granting binding requires. -/
theorem lifted_iff_unveils (hc : e.cache = none) (hm : request.missingField = none)
    (h : (e.evaluate request ctx).1 = .ok d) (hdenied : d.allowed = false) {t : Instant}
    (ht : ctx.now ≤ t) (hb : ∀ v, d.validUntil = some v → t < v) :
    ∃ d', (e.evaluate request { ctx with now := t }).1 = .ok d' ∧ (d'.allowed = true ↔
      (e.store.effectiveRoles e.maxDepth request.principal ctx).isEmpty = false ∧
        ∃ g ∈ (e.store.effectiveRoles e.maxDepth request.principal ctx).conditional,
          e.store.GrantsThrough e.models request { ctx with now := t } g ∧
            e.store.Unveils g.binding request.principal ctx.now t) := by
  obtain ⟨ha, id, d₀, hd₀, hsame, hbound⟩ := decided_of_evaluate hc hm h
  obtain ⟨d₁, hd₁, hallows, -⟩ := Store.decide_ok ha e.models
    (e.store.effectiveRoles e.maxDepth request.principal ctx) request ctx id
  obtain rfl := Except.ok.inj (hd₀.symm.trans hd₁)
  have hdenied₀ : d₀.allowed = false := hsame ▸ hdenied
  have hbefore : Before t d₀.validUntil := hbound ▸ hb
  obtain ⟨hroles, hopens⟩ := (Store.before_of_denied ha hd₀ hdenied₀).mp hbefore
  have hsteady := Store.effectiveRoles_steady ht hroles
  obtain ⟨d', hd', hiff⟩ := evaluate_uncached { ctx with now := t } hc hm ha
  refine ⟨d', hd', hiff.trans ?_⟩
  rw [Store.AllowsNow, hsteady, Store.allows_iff ha, ← EffectiveRoles.isEmpty_eq_false]
  apply and_congr_right
  intro hne
  have hnot : ¬ (e.store.AnyCarries e.models request.grant
      (e.store.effectiveRoles e.maxDepth request.principal ctx).ids ∨
        ∃ g ∈ (e.store.effectiveRoles e.maxDepth request.principal ctx).conditional,
          e.store.GrantsThrough e.models request ctx g) := by
    intro hgrants
    have hallowed := hallows.mpr
      ((Store.allows_iff ha).mpr ⟨EffectiveRoles.isEmpty_eq_false.mp hne, hgrants⟩)
    simp [hdenied₀] at hallowed
  constructor
  · rintro (hcarries | ⟨g, hg, hgrants⟩)
    · exact absurd (Or.inl hcarries) hnot
    · obtain ⟨happlies, hpasses, hbinds⟩ := hgrants
      have hfails : ¬ e.store.CaveatPasses g.binding request.principal ctx.now :=
        fun hp => hnot (Or.inr ⟨g, hg, happlies, hp, hbinds⟩)
      exact ⟨g, hg, ⟨happlies, hpasses, hbinds⟩,
        Store.unveils_of_passes ht hfails hpasses (hopens hne g hg happlies hfails)⟩
  · rintro ⟨g, hg, hgrants, -⟩
    exact Or.inr ⟨g, hg, hgrants⟩

def northFiles : Binding :=
  { Binding.attach "b" .user "ada" (.role "reader") "file" "acme" with
    caveat := some (Caveat.unconstrained.requireAttribute "ward" (.string "north")) }

def lent : Engine MemoryCache where
  config := .standard
  models := [.named, .direct]
  store :=
    { Store.empty with
      roles := .ofList [.global "reader" "Reader"]
      bindings := .ofList [northFiles]
      attributes := [.ofPrincipal "n" "ada" "ward" (.string "north"),
        { Attribute.ofPrincipal "s" "ada" "ward" (.string "south") with
          organization := some "acme"
          expiresAt := some ⟨60, 0⟩ }]
      resourcePermissions := [.typeLevel "p" "reader" "file" "read"] }
  cache := none
  audit := none
  metrics := none
  ids := ⟨0⟩
  elapsed := .zero

lemma lent_candidates : CaveatCheck.candidates lent.store "ada" "acme" ⟨0, 0⟩ =
    lent.store.attributes :=
  List.mergeSort_of_pairwise (by decide +kernel)

lemma not_caveatPasses_lent : ¬ lent.store.CaveatPasses northFiles "ada" ⟨0, 0⟩ := by
  intro h
  obtain ⟨a, ha, hagrees⟩ := (h _ rfl).2 ⟨"ward", .string "north"⟩ List.mem_cons_self
  rw [show northFiles.organization = "acme" from rfl, lent_candidates] at ha
  have hsouth : (CaveatCheck.choose lent.store.attributes "ward").any
      (fun a => (Json.string "north").agrees a.value) = false := by decide +kernel
  simp [ha, hagrees] at hsouth

theorem lifted_iff_unveils_lent :
    let request : AccessRequest := ⟨"ada", "file", "7", "read"⟩
    let ctx (seconds : Int) : Context := ⟨some "acme", none, ⟨seconds, 0⟩⟩
    (∃ d, (lent.evaluate request (ctx 0)).1 = .ok d ∧ d.allowed = false ∧ d.validUntil = none) ∧
      ∃ d, (lent.evaluate request (ctx 60)).1 = .ok d ∧ d.allowed = true ∧
        lent.store.Unveils northFiles "ada" ⟨0, 0⟩ ⟨60, 0⟩ := by
  intro request ctx
  have hm : request.missingField = none := by decide
  obtain ⟨hids, hroles⟩ : (lent.store.effectiveRoles lent.maxDepth "ada" (ctx 0)).ids = [] ∧
      (lent.store.effectiveRoles lent.maxDepth "ada" (ctx 0)).validUntil = none := by
    decide +kernel
  have hbinding : ∀ g ∈ (lent.store.effectiveRoles lent.maxDepth "ada" (ctx 0)).conditional,
      g.binding = northFiles := by
    intro g hg
    obtain ⟨b, hb, rfl, -⟩ := Store.mem_conditional.mp hg
    exact List.mem_singleton.mp (List.mem_filter.mp hb).1
  obtain ⟨d, hd, hallows⟩ := evaluate_uncached (e := lent) (ctx 0) rfl hm rfl
  have hdenied : d.allowed = false := by
    rw [Bool.eq_false_iff, ne_eq, hallows, Store.AllowsNow, Store.allows_iff rfl]
    rintro ⟨-, ⟨id, hid, -⟩ | ⟨g, hg, -, hpasses, -⟩⟩
    · rw [hids] at hid
      exact List.not_mem_nil hid
    · rw [hbinding g hg] at hpasses
      exact not_caveatPasses_lent hpasses
  have hbound : d.validUntil = none := by
    obtain ⟨-, id, d₀, hd₀, hsame, hbound⟩ := decided_of_evaluate rfl hm hd
    have hbefore : ∀ t, Before t d₀.validUntil := by
      intro t
      refine (Store.before_of_denied rfl hd₀ (hsame ▸ hdenied)).mpr ⟨?_, fun _ g hg _ _ => ?_⟩
      · rw [hroles]
        exact .none
      · rw [hbinding g hg]
        exact .none
    cases hv : d₀.validUntil with
    | none => exact hbound.trans hv
    | some v => exact absurd (hbefore v v hv) (Instant.not_lt.mpr (Instant.le_refl v))
  refine ⟨⟨d, hd, hdenied, hbound⟩, ?_⟩
  obtain ⟨d', hd', hlifted⟩ := lifted_iff_unveils rfl hm hd hdenied (t := ⟨60, 0⟩) (by decide)
    (by simp [hbound])
  have hcomputed : (lent.evaluate request (ctx 60)).1.toOption.any (·.allowed) = true := by
    decide +kernel
  have hallowed : d'.allowed = true := by
    simpa [show (lent.evaluate request (ctx 60)).1 = .ok d' from hd', Except.toOption]
      using hcomputed
  obtain ⟨-, g, hg, -, hunveils⟩ := hlifted.mp hallowed
  rw [hbinding g hg] at hunveils
  exact ⟨d', hd', hallowed, hunveils⟩

end Engine

end AccessControl
