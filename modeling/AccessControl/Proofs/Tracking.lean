import AccessControl.Engine
import AccessControl.Proofs.Reaching

/-! What is kept under a key is tracked by a property of the values that can be served. Reading and
losing keep the property, a write has to establish it, and after an invalidation it holds of values
that were not reached. -/

namespace AccessControl

variable {σ : Type} [LosingCache σ]

open LosingCache (Holds)
open CacheKey (About Plain)

structure Tracks {α : Type} (kept : EvaluationCache.Kept α) (c : σ) (key : String)
    (good : α → Prop) : Prop where
  plain : ∀ text value, Holds c key text → kept.decode text = some value →
    ∀ role ∈ kept.roles value, Plain role
  good : ∀ value, EvaluationCache.Served kept c key value → good value

namespace Tracks

open EvaluationCache

variable {α : Type} {kept : Kept α} {c c' : σ} {key principal : String} {ctx : Context}
  {good good' : α → Prop}

lemma plain_of_served (h : Tracks kept c key good) {value : α} (hs : Served kept c key value) :
    ∀ role ∈ kept.roles value, Plain role := by
  obtain ⟨text, ht, hd⟩ := hs.text
  exact h.plain text value ht hd

lemma of_empty (h : ∀ k v, ¬ Holds c k v) : Tracks kept c key good where
  plain text _ ht _ := absurd ht (h key text)
  good _ hs := by
    obtain ⟨text, ht, -⟩ := hs.text
    exact absurd ht (h key text)

lemma mono (h : Tracks kept c key good)
    (hle : ∀ value, (∀ role ∈ kept.roles value, Plain role) → good value → good' value) :
    Tracks kept c key good' :=
  ⟨h.plain, fun value hs => hle value (h.plain_of_served hs) (h.good value hs)⟩

lemma of_shrunk (h : Tracks kept c key good) (hs : Shrunk c c') : Tracks kept c' key good :=
  ⟨fun text value ht => h.plain text value (hs _ _ ht), fun value hv => h.good value (hv.of_shrunk hs)⟩

lemma of_fetch (h : Tracks kept c key good) {now : Instant} {value : α}
    (hf : (fetch kept c key now).1 = some value) :
    good value ∧ (∀ role ∈ kept.roles value, Plain role) ∧ Before now (kept.validUntil value) := by
  obtain ⟨hs, hb⟩ := (fetch_spec kept c key now).2 value hf
  exact ⟨h.good value hs, h.plain_of_served hs, hb⟩

lemma write {key' text : String} {ttl : Duration} {roles : List String} {principal' : String}
    {ctx' : Context} (h : Tracks kept c key good) (hkey : About key principal ctx)
    (hkey' : About key' principal' ctx') (hroles : ∀ role ∈ roles, Plain role)
    (htext : key = key' → ∀ value, kept.decode text = some value →
      (∀ role ∈ kept.roles value, Plain role) ∧ good value) :
    Tracks kept (EvaluationCache.write c key' text ttl roles) key good := by
  have hplain : ∀ t value, Holds (EvaluationCache.write c key' text ttl roles) key t →
      kept.decode t = some value → ∀ role ∈ kept.roles value, Plain role := by
    intro t value ht hd
    rcases write_spec c key' text ttl roles key t ht with ⟨hk, rfl⟩ | ⟨-, ⟨-, role, -, he⟩ | ht⟩
    · exact (htext hk value hd).1
    · exact absurd he (hkey.ne_marker role key')
    · exact h.plain t value ht hd
  refine ⟨hplain, fun value hs => ?_⟩
  obtain ⟨t, ht, hd⟩ := hs.text
  rcases hs.of_write hkey hkey' hroles (hplain t value ht hd) with ⟨hk, hd⟩ | ⟨-, hs⟩
  · exact (htext hk value hd).2
  · exact h.good value hs

lemma dropAll (h : Tracks kept c key good) (hkey : About key principal ctx) (items : List Stale) :
    Tracks kept (Stale.dropAll c items).2 key fun value =>
      good value ∧ ¬ Store.Reached items (kept.roles value) principal ctx := by
  obtain ⟨hs, hr⟩ := Stale.dropped_dropAll c items
  refine ⟨(h.of_shrunk hs).plain, fun value hv => ⟨(h.of_shrunk hs).good value hv, ?_⟩⟩
  rintro ⟨item, hi, hreach⟩
  exact hr hkey hv item hi hreach

lemma dropStale (h : Tracks kept c key good) (hkey : About key principal ctx) {s : Store}
    (ha : s.available = true) (maxDepth : Nat) (change : Change) :
    Tracks kept (Engine.dropStale s c (s.stale maxDepth change)).2 key fun value =>
      good value ∧ ¬ Store.Reached (s.staleItems maxDepth change) (kept.roles value) principal
        ctx := by
  have hknown := h.dropAll hkey (s.stale maxDepth change).known
  unfold Engine.dropStale Store.staleItems
  cases ht : (s.stale maxDepth change).asked with
  | none => simpa using hknown
  | some items =>
    have hasked := hknown.dropAll hkey items
    simp only [Store.read_of_available ha]
    refine hasked.mono fun value _ hg => ⟨hg.1.1, ?_⟩
    rintro ⟨item, hi, hr⟩
    rcases List.mem_append.mp hi with hi | hi
    · exact hg.1.2 ⟨item, hi, hr⟩
    · exact hg.2 ⟨item, hi, hr⟩

end Tracks

end AccessControl
