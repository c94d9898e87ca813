import AccessControl.Cache.Evaluation
import AccessControl.Cache.Faulty
import AccessControl.Proofs.LosingCaches

/-! Cache services of which any call may fail, and any entry be lost, but which never give a text that
was not the last one set. Whatever the evaluation cache reads from such a service is what it, or one
before it, had set under the key. -/

namespace AccessControl

inductive CacheUse where
  | get (key : String)
  | set (key value : String) (ttl : Duration)
  | delete (key : String)
  | keys (pattern : String)

namespace CacheUse

variable {σ : Type} [CacheService σ]

def act (c : σ) : CacheUse → σ
  | get key => (CacheService.get c key).2
  | set key value ttl => (CacheService.set c key value ttl).2
  | delete key => (CacheService.delete c key).2
  | keys pattern => (CacheService.keys c pattern).2

def leaves (c : σ) (stands : String → String → Prop) : CacheUse → String → String → Prop
  | set key value ttl => fun k text =>
    if k = key then text = value ∨ ((CacheService.set c key value ttl).1 ≠ .ok () ∧ stands k text)
    else stands k text
  | get _ | delete _ | keys _ => stands

def standing (c : σ) (stands : String → String → Prop) : List CacheUse → String → String → Prop
  | [] => stands
  | use :: uses => standing (use.act c) (use.leaves c stands) uses

lemma leaves_mono {c : σ} {stands stands' : String → String → Prop}
    (h : ∀ key text, stands key text → stands' key text) (use : CacheUse) (key text : String)
    (hs : use.leaves c stands key text) : use.leaves c stands' key text := by
  cases use with
  | set k value ttl =>
    simp only [leaves] at hs ⊢
    by_cases hk : key = k
    · rw [if_pos hk] at hs ⊢
      exact hs.imp_right (And.imp_right (h key text))
    · rw [if_neg hk] at hs ⊢
      exact h key text hs
  | get | delete | keys => exact h key text hs

lemma standing_mono {c : σ} {stands stands' : String → String → Prop}
    (h : ∀ key text, stands key text → stands' key text) (uses : List CacheUse)
    (key text : String) (hs : standing c stands uses key text) :
    standing c stands' uses key text := by
  induction uses generalizing c stands stands' with
  | nil => exact h key text hs
  | cons use uses ih => exact ih (leaves_mono h use) hs

def Within (sets : String → String → Prop) : CacheUse → Prop
  | set key value _ => sets key value
  | get _ | delete _ | keys _ => True

def Leads (sets : String → String → Prop) (c c' : σ) : Prop :=
  ∃ uses : List CacheUse, uses.foldl act c = c' ∧ ∀ use ∈ uses, use.Within sets

namespace Leads

variable {sets : String → String → Prop} {c c' c'' : σ}

lemma refl (sets : String → String → Prop) (c : σ) : Leads sets c c :=
  ⟨[], rfl, fun _ h => absurd h List.not_mem_nil⟩

lemma trans (h : Leads sets c c') (h' : Leads sets c' c'') : Leads sets c c'' := by
  obtain ⟨uses, rfl, hw⟩ := h
  obtain ⟨uses', rfl, hw'⟩ := h'
  exact ⟨uses ++ uses', List.foldl_append, List.forall_mem_append.mpr ⟨hw, hw'⟩⟩

lemma of_use (c : σ) (use : CacheUse) (h : use.Within sets) : Leads sets c (use.act c) :=
  ⟨[use], rfl, List.forall_mem_singleton.mpr h⟩

lemma get (sets : String → String → Prop) (c : σ) (key : String) :
    Leads sets c (CacheService.get c key).2 :=
  of_use c (.get key) trivial

lemma remove (sets : String → String → Prop) (c : σ) (key : String) :
    Leads sets c (EvaluationCache.remove c key) :=
  of_use c (.delete key) trivial

lemma set (c : σ) {key value : String} (h : sets key value) (ttl : Duration) :
    Leads sets c (CacheService.set c key value ttl).2 :=
  of_use c (.set key value ttl) h

lemma read (sets : String → String → Prop) (c : σ) (key : String) :
    Leads sets c (EvaluationCache.read c key).2 := by
  have hget := get sets c key
  rw [EvaluationCache.read]
  split
  all_goals
    rename_i hc
    rwa [hc] at hget

lemma markersIntact (sets : String → String → Prop) (c : σ) (key : String)
    (roles : List String) : Leads sets c (EvaluationCache.markersIntact c key roles).2 := by
  induction roles generalizing c with
  | nil => exact refl sets c
  | cons role roles ih =>
    have hget := get sets c (CacheKey.marker role key)
    rw [EvaluationCache.markersIntact]
    split
    · rename_i text c' hc
      rw [hc] at hget
      exact hget.trans (ih c')
    · rename_i c' hc
      rw [hc] at hget
      exact hget.trans (remove sets c' key)
    · rename_i fault c' hc
      rwa [hc] at hget

lemma fetch {α : Type} (sets : String → String → Prop) (kept : EvaluationCache.Kept α) (c : σ)
    (key : String) (now : Instant) : Leads sets c (EvaluationCache.fetch kept c key now).2 := by
  have hread := read sets c key
  rw [EvaluationCache.fetch]
  split
  · rename_i c' hr
    rwa [hr] at hread
  · rename_i text c' hr
    rw [hr] at hread
    split
    · exact hread.trans (remove sets c' key)
    · rename_i value hd
      split
      · exact hread
      · have hintact := markersIntact sets c' key (Text.sortedDistinct (kept.roles value))
        split
        all_goals
          rename_i hi
          rw [hi] at hintact
          exact hread.trans hintact

lemma writeMarkers (c : σ) {key : String} (hm : ∀ role, sets (CacheKey.marker role key) "")
    (ttl : Duration) (roles : List String) :
    Leads sets c (EvaluationCache.writeMarkers c key ttl roles).2 := by
  induction roles generalizing c with
  | nil => exact refl sets c
  | cons role roles ih =>
    have hset := set c (hm role) ttl
    rw [EvaluationCache.writeMarkers]
    split
    · rename_i c' hc
      rw [hc] at hset
      exact hset.trans (ih c')
    · rename_i fault c' hc
      rwa [hc] at hset

lemma write (c : σ) {key value : String} (hm : ∀ role, sets (CacheKey.marker role key) "")
    (hv : sets key value) (ttl : Duration) (roles : List String) :
    Leads sets c (EvaluationCache.write c key value ttl roles) := by
  have hmarkers := writeMarkers c hm ttl (Text.sortedDistinct roles)
  rw [EvaluationCache.write]
  split
  · rename_i c' hc
    rw [hc] at hmarkers
    exact hmarkers.trans (set c' hv ttl)
  · rename_i c' hc
    rwa [hc] at hmarkers

end Leads

end CacheUse

/-- However it is used, the service gives a text only while it is the last one set under its key, or
one of those that may have stood there at the start. -/
def Honest {σ : Type} [CacheService σ] (c : σ) (stands : String → String → Prop) : Prop :=
  ∀ (uses : List CacheUse) (key text : String),
    (CacheService.get (uses.foldl CacheUse.act c) key).1 = .ok (some text) →
      CacheUse.standing c stands uses key text

namespace Honest

open EvaluationCache

variable {σ : Type} [CacheService σ] {c : σ} {stands : String → String → Prop}

lemma mono {stands' : String → String → Prop} (h : Honest c stands)
    (hs : ∀ key text, stands key text → stands' key text) : Honest c stands' :=
  fun uses key text ht => CacheUse.standing_mono hs uses key text (h uses key text ht)

lemma given (h : Honest c stands) {key text : String}
    (ht : (CacheService.get c key).1 = .ok (some text)) : stands key text :=
  h [] key text ht

lemma get (h : Honest c stands) (key : String) : Honest (CacheService.get c key).2 stands :=
  fun uses => h (.get key :: uses)

lemma delete (h : Honest c stands) (key : String) :
    Honest (CacheService.delete c key).2 stands :=
  fun uses => h (.delete key :: uses)

lemma set (h : Honest c stands) {key value : String} (hv : stands key value) (ttl : Duration) :
    Honest (CacheService.set c key value ttl).2 stands := by
  have hset : Honest (CacheService.set c key value ttl).2
      (CacheUse.leaves c stands (.set key value ttl)) := fun uses => h (.set key value ttl :: uses)
  apply hset.mono
  intro k text ht
  rw [CacheUse.leaves] at ht
  split at ht
  · rename_i hk
    subst hk
    rcases ht with rfl | ⟨-, ht⟩
    · exact hv
    · exact ht
  · exact ht

lemma act (h : Honest c stands) {use : CacheUse} (hw : use.Within stands) :
    Honest (use.act c) stands := by
  cases use with
  | get key => exact h.get key
  | set key value ttl => exact h.set hw ttl
  | delete key => exact h.delete key
  | keys pattern => exact fun uses => h (.keys pattern :: uses)

lemma leads {c' : σ} (h : Honest c stands) (hl : CacheUse.Leads stands c c') :
    Honest c' stands := by
  obtain ⟨uses, rfl, hw⟩ := hl
  induction uses generalizing c with
  | nil => exact h
  | cons use uses ih =>
    obtain ⟨hu, hw⟩ := List.forall_mem_cons.mp hw
    exact ih (h.act hu) hw

lemma read (h : Honest c stands) (key text : String)
    (ht : (EvaluationCache.read c key).1 = some text) : stands key text := by
  apply h.given
  rw [EvaluationCache.read] at ht
  split at ht
  · rename_i value c' hc
    rw [hc]
    exact congrArg Except.ok ht
  · cases ht

lemma fetch {α : Type} (h : Honest c stands) (kept : Kept α) (key : String) (now : Instant) :
    Honest (EvaluationCache.fetch kept c key now).2 stands ∧
      ∀ value, (EvaluationCache.fetch kept c key now).1 = some value →
        ∃ text, stands key text ∧ kept.decode text = some value := by
  refine ⟨h.leads (.fetch stands kept c key now), fun value he => ?_⟩
  have htext := h.read key
  rw [EvaluationCache.fetch] at he
  split at he
  · cases he
  · rename_i text c' hr
    rw [hr] at htext
    split at he
    · cases he
    · rename_i value' hd
      split at he
      · cases he
      · split at he
        · exact ⟨text, htext text rfl, hd.trans he⟩
        · cases he

lemma write (h : Honest c stands) {key value : String}
    (hm : ∀ role, stands (CacheKey.marker role key) "") (hv : stands key value) (ttl : Duration)
    (roles : List String) : Honest (EvaluationCache.write c key value ttl roles) stands :=
  h.leads (.write c hm hv ttl roles)

end Honest

lemma LosingCache.honest {σ : Type} [LosingCache σ] (c : σ) : Honest c (Holds c) := by
  intro uses
  -- After each call, what the cache still holds is among what may stand under the keys.
  induction uses generalizing c with
  | nil =>
    intro key text ht
    obtain ⟨value, c', hget, hvalue, -⟩ := get_spec c key
    change (CacheService.get c key).1 = .ok (some text) at ht
    rw [hget] at ht
    exact hvalue text (Except.ok.inj ht)
  | cons use uses ih =>
    intro key text ht
    refine CacheUse.standing_mono (fun k v hv => ?_) uses key text (ih (use.act c) key text ht)
    cases use with
    | get k' =>
      obtain ⟨value, c', hget, -, hh⟩ := get_spec c k'
      exact hh k v (by simpa [CacheUse.act, hget] using hv)
    | set k' v' ttl =>
      obtain ⟨c', hset, hh⟩ := set_spec c k' v' ttl
      simp only [CacheUse.leaves]
      rcases hh k v (by simpa [CacheUse.act, hset] using hv) with ⟨rfl, rfl⟩ | ⟨hk, hv⟩
      · rw [if_pos rfl]
        exact Or.inl rfl
      · rw [if_neg hk]
        exact hv
    | delete k' =>
      obtain ⟨c', hdelete, hh⟩ := delete_spec c k'
      exact (hh k v (by simpa [CacheUse.act, hdelete] using hv)).2
    | keys pattern =>
      obtain ⟨keys, c', hkeys, hh, -⟩ := keys_spec c pattern
      exact hh k v (by simpa [CacheUse.act, hkeys] using hv)

namespace FaultyCache

lemma live_of_act {c : FaultyCache} (h : c.memory.Distinct) (use : CacheUse) :
    (use.act c).memory.Distinct ∧
      ∀ k v, (use.act c).memory.Live k v → use.leaves c c.memory.Live k v := by
  cases use with
  | get key =>
    obtain ⟨-, hs, hc⟩ := c.memory.get_spec key
    simp only [CacheUse.act, CacheUse.leaves, CacheService.get]
    by_cases hf : failsGet c.weakness key = true
    · rw [if_pos hf]
      exact ⟨h, fun _ _ hl => hl⟩
    · rw [if_neg hf]
      exact ⟨h.sublist hs, fun _ _ hl => hl.sublist hs (Nat.le_of_eq hc.symm)⟩
  | set key value ttl =>
    simp only [CacheUse.act, CacheUse.leaves, CacheService.set]
    by_cases hf : failsSet c.weakness key = true
    · rw [if_pos hf]
      refine ⟨h, fun k v hl => ?_⟩
      by_cases hk : k = key
      · rw [if_pos hk]
        exact Or.inr ⟨by simp, hl⟩
      · rw [if_neg hk]
        exact hl
    · rw [if_neg hf]
      refine ⟨h.set ttl, fun k v hl => ?_⟩
      rcases MemoryCache.live_of_set h hl with ⟨rfl, rfl⟩ | ⟨hk, hl⟩
      · rw [if_pos rfl]
        exact Or.inl rfl
      · rw [if_neg hk]
        exact hl
  | delete key =>
    simp only [CacheUse.act, CacheUse.leaves, CacheService.delete]
    by_cases hf : failsDelete c.weakness = true
    · rw [if_pos hf]
      exact ⟨h, fun _ _ hl => hl⟩
    · rw [if_neg hf]
      exact ⟨h.sublist (c.memory.sublist_erase key), fun _ _ hl => (MemoryCache.live_of_erase hl).2⟩
  | keys pattern =>
    simp only [CacheUse.act, CacheUse.leaves, CacheService.keys]
    by_cases hf : failsKeys c.weakness = true
    · rw [if_pos hf]
      exact ⟨h, fun _ _ hl => hl⟩
    · rw [if_neg hf]
      exact ⟨h, fun _ _ hl => hl⟩

lemma honest_of_live {c : FaultyCache} {stands : String → String → Prop}
    (hd : c.memory.Distinct) (hs : ∀ key text, c.memory.Live key text → stands key text) :
    Honest c stands := by
  intro uses
  induction uses generalizing c stands with
  | nil =>
    intro key text ht
    apply hs
    change (CacheService.get c key).1 = .ok (some text) at ht
    simp only [CacheService.get] at ht
    by_cases hf : failsGet c.weakness key = true
    · simp [hf] at ht
    · rw [if_neg hf] at ht
      exact (c.memory.get_spec key).1 text (Except.ok.inj ht)
  | cons use uses ih =>
    obtain ⟨hd', hl⟩ := live_of_act hd use
    exact ih hd' fun k v h => CacheUse.leaves_mono hs use k v (hl k v h)

lemma honest_ofCapacity (weakness : CacheWeakness) (capacity : Nat) :
    Honest (⟨weakness, .ofCapacity capacity, []⟩ : FaultyCache) fun _ _ => False := by
  apply honest_of_live
  · exact List.nodup_nil
  · rintro key text ⟨entry, hentry, -⟩
    exact List.not_mem_nil hentry

end FaultyCache

end AccessControl
