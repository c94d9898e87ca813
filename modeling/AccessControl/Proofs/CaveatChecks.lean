import AccessControl.CaveatCheck
import Mathlib.Tactic.Common

/-! A caveat passes when its window holds the instant and every attribute it requires is provided as
it is required. Of the attributes that could provide it, the one that counts is last in the order of
the attributes. -/

namespace AccessControl

namespace Attribute

lemma precedes_trans (a b c : Attribute) (h : a.precedes b = true) (h' : b.precedes c = true) :
    a.precedes c = true := by
  simp only [precedes] at h h' ⊢
  cases ha : a.organization.isSome <;> cases hb : b.organization.isSome <;>
    cases hc : c.organization.isSome <;> simp only [ha, hb, hc] at h h' ⊢ <;> simp at h h' ⊢
  all_goals exact String.le_trans h h'

lemma precedes_total (a b : Attribute) : (a.precedes b || b.precedes a) = true := by
  simp only [precedes]
  cases ha : a.organization.isSome <;> cases hb : b.organization.isSome <;> simp
  all_goals exact String.le_total a.id b.id

end Attribute

namespace Store

def Provides (s : Store) (principal organization : String) (now : Instant) (key : String)
    (a : Attribute) : Prop :=
  a ∈ s.attributes ∧ a.subject = principal ∧ a.subjectType = .principal ∧ a.key = key ∧
    a.isActive = true ∧ (∀ e, a.expiresAt = some e → now < e) ∧
    ∀ o, a.organization = some o → o = organization

end Store

namespace CaveatCheck

variable {s : Store} {principal organization key : String} {now : Instant}

lemma mem_candidates {a : Attribute} :
    a ∈ candidates s principal organization now ∧ a.key = key ↔
      s.Provides principal organization now key a := by
  simp only [candidates, List.mem_mergeSort, List.mem_filter, Store.attributesOf,
    Bool.and_eq_true, beq_iff_eq, Attribute.isEffective, Attribute.visibleIn,
    Option.all_eq_true, decide_eq_true_eq, Store.Provides]
  tauto

lemma pairwise_candidates (s : Store) (principal organization : String) (now : Instant) :
    (candidates s principal organization now).Pairwise fun a b => a.precedes b = true :=
  List.pairwise_mergeSort Attribute.precedes_trans Attribute.precedes_total _

lemma choose_spec {a : Attribute}
    (h : choose (candidates s principal organization now) key = some a) :
    s.Provides principal organization now key a ∧
      ∀ b, s.Provides principal organization now key b → b.precedes a = true := by
  have hord := (pairwise_candidates s principal organization now)
  rw [← List.pairwise_reverse] at hord
  rw [choose] at h
  obtain ⟨hkey, before, after, heq, hbefore⟩ := List.find?_eq_some_iff_append.mp h
  have hkey : a.key = key := by simpa using hkey
  have hmem : ∀ b, b ∈ candidates s principal organization now ↔ b ∈ before ++ a :: after :=
    fun b => by rw [← heq, List.mem_reverse]
  refine ⟨mem_candidates.mp ⟨(hmem a).mpr (by simp), hkey⟩, fun b hb => ?_⟩
  obtain ⟨hb, hbkey⟩ := mem_candidates.mpr hb
  rcases List.mem_append.mp ((hmem b).mp hb) with hb | hb
  · exact absurd (hbefore b hb) (by simp [hbkey])
  · rcases List.mem_cons.mp hb with rfl | hb
    · simpa using Attribute.precedes_total b b
    · rw [heq] at hord
      exact (List.pairwise_cons.mp (List.pairwise_append.mp hord).2.1).1 b hb

def Meets (provided : List Attribute) (required : List Requirement) : Prop :=
  ∀ r ∈ required, ∃ a, choose provided r.key = some a ∧ r.expected.agrees a.value = true

lemma checkAttributes_ok {provided : List Attribute} {required : List Requirement}
    {bound : Option Instant} :
    (∃ b, checkAttributes provided required bound = .ok b) ↔ Meets provided required := by
  induction required generalizing bound with
  | nil => simp [checkAttributes, Meets]
  | cons r rest ih =>
    simp only [Meets, List.mem_cons, forall_eq_or_imp, checkAttributes]
    cases hc : choose provided r.key with
    | none => simp
    | some a =>
      by_cases ha : r.expected.agrees a.value = true
      · simp only [ha, if_true]
        exact ih.trans (by simp [ha, Meets])
      · simp [ha]

lemma windowFault_eq_none {w : TimeWindow} :
    windowFault w now = none ↔ w.contains now = true := by
  unfold windowFault TimeWindow.contains
  cases hs : w.startsAt with
  | none =>
    cases he : w.endsAt with
    | none => simp
    | some e => by_cases h : e < now <;> simp [Option.filter, h, ← Instant.not_lt]
  | some s =>
    by_cases h : now < s
    · simp [Option.filter, h, ← Instant.not_lt]
    · cases he : w.endsAt with
      | none => simp [Option.filter, h, ← Instant.not_lt]
      | some e =>
        by_cases h' : e < now <;> simp [Option.filter, h, h', ← Instant.not_lt]

end CaveatCheck

namespace Store

def CaveatPasses (s : Store) (b : Binding) (principal : String) (now : Instant) : Prop :=
  ∀ c, b.caveat = some c → (∀ w, c.window = some w → w.contains now = true) ∧
    CaveatCheck.Meets (CaveatCheck.candidates s principal b.organization now) c.required

lemma checkCaveat_ok {s : Store} (h : s.available = true) (b : Binding) (principal : String)
    (ctx : Context) :
    ∃ outcome, s.checkCaveat b principal ctx = .ok outcome ∧
      (outcome.passed = true ↔ s.CaveatPasses b principal ctx.now) := by
  unfold checkCaveat CaveatPasses
  cases hb : b.caveat with
  | none => exact ⟨_, rfl, by simp [CaveatOutcome.pass]⟩
  | some c =>
    simp only [Option.some.injEq, forall_eq']
    have hw : c.window.bind (CaveatCheck.windowFault · ctx.now) = none ↔
        ∀ w, c.window = some w → w.contains ctx.now = true := by
      simp [Option.bind_eq_none_iff, CaveatCheck.windowFault_eq_none]
    cases hf : c.window.bind (CaveatCheck.windowFault · ctx.now) with
    | some reason =>
      refine ⟨_, rfl, iff_of_false (by simp [CaveatOutcome.fail]) fun hc => ?_⟩
      exact absurd (hw.mpr hc.1) (by simp [hf])
    | none =>
      simp only
      split
      · rename_i he
        rw [List.isEmpty_iff] at he
        exact ⟨_, rfl, iff_of_true rfl ⟨hw.mp hf, by simp [he, CaveatCheck.Meets]⟩⟩
      · refine ⟨_, read_of_available h _, ?_⟩
        have hok : (∃ bound, CaveatCheck.checkAttributes
            (CaveatCheck.candidates s principal b.organization ctx.now) c.required none =
              .ok bound) ↔ _ := CaveatCheck.checkAttributes_ok
        rw [CaveatCheck.checkRequired]
        split
        · rename_i bound hc
          exact iff_of_true rfl ⟨hw.mp hf, hok.mp ⟨bound, hc⟩⟩
        · rename_i reason hc
          refine iff_of_false (by simp [CaveatOutcome.fail]) fun hm => ?_
          obtain ⟨bound, hc'⟩ := hok.mpr hm.2
          simp [hc] at hc'

end Store

end AccessControl
