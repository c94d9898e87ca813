import AccessControl.Proofs.CachedTexts
import AccessControl.Proofs.KeySeparation

/-! Bounds of role sets and decisions are instants that clocks give, if those of the store are. -/

namespace AccessControl

namespace RegularBound

lemma none : RegularBound none := by
  simp [RegularBound]

lemma earliest {x y : Option Instant} (hx : RegularBound x) (hy : RegularBound y) :
    RegularBound (AccessControl.earliest x y) := by
  cases x with
  | none => exact hy
  | some a =>
    cases y with
    | none => exact hx
    | some b =>
      rintro t ht
      obtain rfl := Option.some.inj ht
      rw [Instant.min]
      split
      · exact hx a rfl
      · exact hy b rfl

lemma foldl {α : Type} {f : α → Option Instant} {rows : List α} {x : Option Instant}
    (hx : RegularBound x) (h : ∀ a ∈ rows, RegularBound (f a)) :
    RegularBound (rows.foldl (fun bound a => AccessControl.earliest bound (f a)) x) := by
  induction rows generalizing x with
  | nil => exact hx
  | cons a rows ih =>
    exact ih (hx.earliest (h a List.mem_cons_self)) fun a' ha' => h a' (List.mem_cons_of_mem _ ha')

end RegularBound

lemma TimeWindow.Regular.nextTransition {w : TimeWindow} (h : w.Regular) (now : Instant) :
    RegularBound (w.nextTransition now) := by
  intro t ht
  rw [TimeWindow.nextTransition] at ht
  split at ht
  · rename_i s hs
    obtain rfl := Option.some.inj ht
    exact h.starts s (Option.filter_eq_some_iff.mp hs).1
  · exact h.ends t (Option.filter_eq_some_iff.mp ht).1

lemma TimeWindow.Regular.transition {w : TimeWindow} (h : w.Regular) (isActive : Bool)
    (now : Instant) : RegularBound (GroupWalk.transition isActive w now) := by
  cases isActive with
  | true => exact h.nextTransition now
  | false => exact .none

lemma CaveatCheck.regular_of_checkAttributes {provided : List Attribute}
    (h : ∀ {key a}, choose provided key = some a → RegularBound a.expiresAt)
    {required : List Requirement} {bound bound' : Option Instant} (hb : RegularBound bound)
    (hok : checkAttributes provided required bound = .ok bound') : RegularBound bound' := by
  induction required generalizing bound with
  | nil =>
    obtain rfl := Except.ok.inj hok
    exact hb
  | cons r rest ih =>
    rw [checkAttributes] at hok
    split at hok
    · cases hok
    · rename_i a hc
      split at hok
      · exact ih (hb.earliest (h hc)) hok
      · cases hok

namespace Store

/-- Every caveat is what its text says: its window has bounds that clocks give, and what it requires is
read back as it is. -/
def Legible (s : Store) : Prop :=
  ∀ b ∈ s.bindings.rows, ∀ c, b.caveat = some c → c.Codable

/-- What the store gives can be kept in a cache: its roles have ids that markers can name, its
instants are those that clocks give, and its caveats are what their texts say. -/
structure Cacheable (s : Store) : Prop where
  roles : ∀ r ∈ s.roles.rows, CacheKey.Plain r.id
  userRoles : ∀ u ∈ s.userRoles, u.window.Regular
  memberships : ∀ m ∈ s.memberships, m.window.Regular
  inheritance : ∀ e ∈ s.inheritance, e.window.Regular
  groupRoles : ∀ g ∈ s.groupRoles, g.window.Regular
  caveats : s.Legible
  attributes : ∀ a ∈ s.attributes, RegularBound a.expiresAt

structure Timed (s : Store) : Prop where
  userRoles : ∀ u ∈ s.userRoles, u.window.Regular
  memberships : ∀ m ∈ s.memberships, m.window.Regular
  inheritance : ∀ e ∈ s.inheritance, e.window.Regular
  groupRoles : ∀ g ∈ s.groupRoles, g.window.Regular

variable {s : Store} {maxDepth : Nat} {principal : String} {ctx : Context}

lemma Cacheable.timed (h : s.Cacheable) : s.Timed :=
  ⟨h.userRoles, h.memberships, h.inheritance, h.groupRoles⟩

lemma Timed.walk (h : s.Timed) (now : Instant) (roots : List String) :
    RegularBound (GroupWalk.inherited s maxDepth now roots).validUntil := by
  have hroot : ∀ (w : GroupWalk) (root : String), RegularBound w.validUntil →
      RegularBound (GroupWalk.fromRoot s maxDepth now w root).validUntil := by
    intro w root hw
    rw [GroupWalk.fromRoot]
    refine Walk.run_preserves (P := fun w : GroupWalk => RegularBound w.validUntil) ?_ _ hw
    intro w w' hs hw
    cases GroupWalk.step_cases hs with
    | visit =>
      exact .foldl hw fun e he =>
        (h.inheritance e (List.mem_filter.mp he).1).transition e.isActive now
    | tooDeep | again | pass => exact hw
  have hroots : ∀ (roots : List String) (w : GroupWalk), RegularBound w.validUntil →
      RegularBound (roots.foldl (GroupWalk.fromRoot s maxDepth now) w).validUntil := by
    intro roots
    induction roots with
    | nil => exact fun _ hw => hw
    | cons root roots ih => exact fun w hw => ih _ (hroot w root hw)
  exact hroots roots _ .none

lemma Timed.validUntil (h : s.Timed) :
    RegularBound (s.effectiveRoles maxDepth principal ctx).validUntil := by
  intro b hb
  by_contra hn
  have hbefore : ∀ {bound}, RegularBound bound →
      (∀ t, s.Stands maxDepth principal ctx t → Before t bound) → Before b bound := by
    intro bound hr hstands x hx
    by_contra hlt
    have hx' : x < b := by
      by_contra hge
      have he : x = b := Instant.le_antisymm (Instant.not_lt.mp hlt) (Instant.not_lt.mp hge)
      exact hn (he ▸ hr x hx)
    have hlater : Before x (s.effectiveRoles maxDepth principal ctx).validUntil := by
      rw [hb]
      exact Before.some.mpr hx'
    exact absurd (hstands x (before_validUntil.mp hlater) x hx) (by simp [Instant.lt_def])
  have hstands : s.Stands maxDepth principal ctx b := {
    joined := fun m hm => hbefore
      ((h.memberships m (List.mem_filter.mp hm).1).transition _ _) fun t ht => ht.joined m hm
    assigned := fun u hu => hbefore
      ((h.userRoles u (List.mem_filter.mp hu).1).transition _ _) fun t ht => ht.assigned u hu
    sourced := fun u hu he g hg hm => hbefore
      (.foldl .none fun r hr => (h.groupRoles r (List.mem_filter.mp
        (List.mem_filter.mp hr).1).1).nextTransition _) fun t ht => ht.sourced u hu he g hg hm
    walk := hbefore (h.walk _ _) fun t ht => ht.walk
    given := fun g hg r hr => hbefore
      ((h.groupRoles r (List.mem_filter.mp hr).1).transition _ _) fun t ht => ht.given g hg r hr }
  exact absurd (before_validUntil.mpr hstands b hb) (by simp [Instant.lt_def])

lemma Legible.effectiveRoles (h : s.Legible) :
    (s.effectiveRoles maxDepth principal ctx).Codable := by
  intro g hg c hc
  obtain ⟨b, hb, rfl, -⟩ := mem_conditional.mp hg
  exact h b (List.mem_filter.mp hb).1 c hc

lemma Cacheable.basis (h : s.Cacheable) {models : List GrantModel} {e : EffectiveRoles}
    (he : ∀ g ∈ e.conditional, RegularBound (g.binding.caveat.bind (·.endsAt)))
    {request : AccessRequest} {bound : Option Instant} (ha : s.available = true)
    (hb : s.Basis models e request ctx bound) : RegularBound bound := by
  have hexpiry : ∀ {organization key : String} {a : Attribute},
      CaveatCheck.choose (CaveatCheck.candidates s request.principal organization ctx.now) key =
        some a → RegularBound a.expiresAt :=
    fun hc => h.attributes _ (CaveatCheck.choose_spec hc).1.1
  cases hb with
  | roles => exact .none
  | @binding g outcome hg happlies hcaveat hpassed hgrants =>
    apply (he g hg).earliest
    rw [checkCaveat] at hcaveat
    split at hcaveat
    · obtain rfl := Except.ok.inj hcaveat
      exact .none
    · split at hcaveat
      · obtain rfl := Except.ok.inj hcaveat
        exact .none
      · split at hcaveat
        · obtain rfl := Except.ok.inj hcaveat
          exact .none
        · rw [read_of_available ha] at hcaveat
          obtain rfl := Except.ok.inj hcaveat
          rw [CaveatCheck.checkRequired]
          split
          · rename_i bound hok
            exact CaveatCheck.regular_of_checkAttributes hexpiry .none hok
          · exact .none

end Store

end AccessControl
