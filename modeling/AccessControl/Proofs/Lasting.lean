import AccessControl.Proofs.Restriction
import AccessControl.Proofs.Sorting
import AccessControl.Proofs.Uncached

/-! What allowed a request goes on allowing it until the bound of the decision. -/

namespace AccessControl

namespace CaveatCheck

variable {s : Store} {principal organization key : String} {now t : Instant}

lemma candidates_later (ht : now ≤ t) :
    candidates s principal organization t = (candidates s principal organization now).filter
      fun a => a.expiresAt.all fun e => t < e := by
  rw [candidates, candidates,
    Sorting.filter_mergeSort _ Attribute.precedes_trans Attribute.precedes_total, List.filter_filter]
  congr 1
  refine List.filter_congr fun a _ => ?_
  cases he : a.expiresAt with
  | none => simp [Attribute.isEffective, he]
  | some e =>
    by_cases hlt : t < e
    · have hlt' : now < e := Instant.lt_of_le_of_lt ht hlt
      simp [Attribute.isEffective, he, hlt, hlt']
    · simp [Attribute.isEffective, he, hlt]

lemma choose_later {a : Attribute} (ht : now ≤ t)
    (h : choose (candidates s principal organization now) key = some a)
    (hb : Before t a.expiresAt) :
    choose (candidates s principal organization t) key = some a := by
  unfold choose at h ⊢
  rw [candidates_later ht, ← List.filter_reverse]
  refine Sorting.find?_filter_of_find? h ?_
  rw [Option.all_eq_true]
  exact fun e he => by simpa using hb e he

lemma before_of_checkAttributes {provided : List Attribute} {required : List Requirement}
    {bound bound' : Option Instant} (h : checkAttributes provided required bound = .ok bound')
    (hb : Before t bound') :
    Before t bound ∧ ∀ r ∈ required, ∃ a, choose provided r.key = some a ∧
      r.expected.agrees a.value = true ∧ Before t a.expiresAt := by
  induction required generalizing bound with
  | nil =>
    obtain rfl := Except.ok.inj h
    exact ⟨hb, by simp⟩
  | cons r rest ih =>
    rw [checkAttributes] at h
    cases hc : choose provided r.key with
    | none => simp [hc] at h
    | some a =>
      by_cases ha : r.expected.agrees a.value = true
      · simp only [hc, ha, if_true] at h
        obtain ⟨hbound, hrest⟩ := ih h
        rw [Before.earliest] at hbound
        refine ⟨hbound.1, ?_⟩
        intro r' hr'
        rcases List.mem_cons.mp hr' with rfl | hr'
        · exact ⟨a, hc, ha, hbound.2⟩
        · exact hrest r' hr'
      · simp [hc, ha] at h

end CaveatCheck

namespace TimeWindow

lemma contains_later {w : TimeWindow} {now t : Instant} (h : w.contains now = true) (ht : now ≤ t)
    (hb : Before t w.endsAt) : w.contains t = true := by
  simp only [contains, Bool.and_eq_true, Option.all_eq_true, decide_eq_true_eq] at h ⊢
  refine ⟨fun s hs => Instant.le_trans (h.1 s hs) ht, fun e he => ?_⟩
  have := hb e he
  rw [Instant.lt_def] at this
  rw [Instant.le_def]
  omega

end TimeWindow

namespace Store

variable {s : Store} {models : List GrantModel} {request : AccessRequest} {ctx : Context}
  {t : Instant}

lemma caveatPasses_later {b : Binding} {principal : String} {outcome : CaveatOutcome}
    (ha : s.available = true) (h : s.checkCaveat b principal ctx = .ok outcome)
    (hp : outcome.passed = true) (ht : ctx.now ≤ t)
    (hb : Before t (earliest (b.caveat.bind (·.endsAt)) outcome.validUntil)) :
    s.CaveatPasses b principal t := by
  obtain ⟨outcome', h', hpass⟩ := checkCaveat_ok ha b principal ctx
  obtain rfl := Except.ok.inj (h.symm.trans h')
  intro c hc
  obtain ⟨hw, -⟩ := hpass.mp hp c hc
  rw [Before.earliest, hc] at hb
  refine ⟨fun w hcw => TimeWindow.contains_later (hw w hcw) ht ?_, ?_⟩
  · simpa [Caveat.endsAt, hcw] using hb.1
  · have hf : c.window.bind (CaveatCheck.windowFault · ctx.now) = none := by
      simpa [Option.bind_eq_none_iff, CaveatCheck.windowFault_eq_none] using hw
    simp only [checkCaveat, hc, hf] at h
    split at h
    · rename_i he
      rw [List.isEmpty_iff] at he
      simp [CaveatCheck.Meets, he]
    · rw [read_of_available ha] at h
      obtain rfl := Except.ok.inj h
      unfold CaveatCheck.checkRequired at hb hp
      split at hb
      · rename_i bound hok
        intro r hr
        obtain ⟨a, hchoose, hagrees, hbefore⟩ :=
          (CaveatCheck.before_of_checkAttributes hok hb.2).2 r hr
        exact ⟨a, CaveatCheck.choose_later ht hchoose hbefore, hagrees⟩
      · rename_i reason herr
        simp [herr, CaveatOutcome.fail] at hp

lemma Basis.later {e : EffectiveRoles} {bound : Option Instant} (ha : s.available = true)
    (h : s.Basis models e request ctx bound) (ht : ctx.now ≤ t) (hb : Before t bound) :
    s.AnyCarries models request.grant e.ids ∨
      ∃ g ∈ e.conditional, s.GrantsThrough models request { ctx with now := t } g := by
  cases h with
  | roles hc => exact Or.inl hc
  | @binding g outcome hg happlies hcaveat hpassed hgrants =>
    exact Or.inr ⟨g, hg, happlies, caveatPasses_later ha hcaveat hpassed ht hb, hgrants⟩

lemma Allows.later {e e' : EffectiveRoles} {bound : Option Instant} (ha : s.available = true)
    (h : s.Allows models e request ctx) (hbasis : s.Basis models e request ctx bound)
    (ht : ctx.now ≤ t) (hb : Before t bound) (hle : e.Under e') :
    s.Allows models e' request { ctx with now := t } := by
  refine Allows.mono ha ((allows_iff ha).mpr ⟨?_, hbasis.later ha ht hb⟩) hle
  exact ((allows_iff ha).mp h).1

lemma allows_keeping {keep : String → Bool} (ha : s.available = true) {e : EffectiveRoles} :
    (s.keeping keep).Allows models e request ctx ↔ s.Allows models e request ctx := by
  rw [allows_iff ha, allows_iff (show (s.keeping keep).available = true from ha)]
  exact Iff.rfl

lemma AllowsNow.of_keeping {keep : String → Bool} {maxDepth : Nat} (ha : s.available = true)
    (h : (s.keeping keep).AllowsNow models maxDepth request ctx) :
    s.AllowsNow models maxDepth request ctx :=
  ((allows_keeping ha).mp h).mono ha (keeping_under s keep maxDepth request.principal ctx)

end Store

end AccessControl
