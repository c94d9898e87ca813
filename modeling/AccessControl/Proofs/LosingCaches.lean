import AccessControl.Cache.Memory
import Mathlib.Data.List.Basic

/-! Caches that may lose what they hold at any time, but make nothing up. Such a cache answers every
call, and lists every key that it holds and that a pattern matches. The cache in memory is one, also
when entries are lost and time passes before each call. -/

namespace AccessControl

class LosingCache (σ : Type) extends CacheService σ where
  Holds : σ → String → String → Prop
  get_spec : ∀ (c : σ) (key : String), ∃ value c', CacheService.get c key = (.ok value, c') ∧
    (∀ v, value = some v → Holds c key v) ∧ ∀ k v, Holds c' k v → Holds c k v
  set_spec : ∀ (c : σ) (key value : String) (ttl : Duration), ∃ c',
    CacheService.set c key value ttl = (.ok (), c') ∧
      ∀ k v, Holds c' k v → (k = key ∧ v = value) ∨ (k ≠ key ∧ Holds c k v)
  delete_spec : ∀ (c : σ) (key : String), ∃ c', CacheService.delete c key = (.ok (), c') ∧
    ∀ k v, Holds c' k v → k ≠ key ∧ Holds c k v
  keys_spec : ∀ (c : σ) (pattern : String), ∃ keys c',
    CacheService.keys c pattern = (.ok keys, c') ∧ (∀ k v, Holds c' k v → Holds c k v) ∧
      ∀ k v, Holds c' k v → globMatches pattern k = true → k ∈ keys

namespace MemoryCache

def Distinct (m : MemoryCache) : Prop :=
  (m.entries.map (·.key)).Nodup

def Live (m : MemoryCache) (key value : String) : Prop :=
  ∃ e ∈ m.entries, e.key = key ∧ e.value = value ∧ m.isLive e = true

variable {m : MemoryCache} {key value k v : String}

lemma Distinct.sublist {m' : MemoryCache} (h : m.Distinct)
    (hs : m'.entries.Sublist m.entries) : m'.Distinct :=
  (hs.map _).nodup h

lemma Live.sublist {m' : MemoryCache} (h : m'.Live k v) (hs : m'.entries.Sublist m.entries)
    (ht : m.clock ≤ m'.clock) : m.Live k v := by
  obtain ⟨e, he, hk, hv, hl⟩ := h
  refine ⟨e, hs.subset he, hk, hv, ?_⟩
  simp only [isLive, decide_eq_true_eq] at hl ⊢
  omega

lemma sublist_erase (m : MemoryCache) (key : String) :
    (m.erase key).entries.Sublist m.entries :=
  List.filter_sublist

lemma get_spec (m : MemoryCache) (key : String) :
    (∀ v, (m.get key).1 = some v → m.Live key v) ∧
      (m.get key).2.entries.Sublist m.entries ∧ (m.get key).2.clock = m.clock := by
  rw [MemoryCache.get]
  cases hf : m.find? key with
  | none => exact ⟨by simp, .refl _, rfl⟩
  | some e =>
    simp only
    split
    · rename_i hl
      refine ⟨fun v hv => ?_, .refl _, rfl⟩
      have hk : e.key = key := by simpa using List.find?_some hf
      exact ⟨e, List.mem_of_find?_eq_some hf, hk, Option.some.inj hv, hl⟩
    · exact ⟨by simp, sublist_erase m key, rfl⟩

lemma sublist_makeRoom (m : MemoryCache) : m.makeRoom.entries.Sublist m.entries := by
  rw [makeRoom]
  simp only
  split
  · exact List.filter_sublist
  · exact (List.drop_sublist _ _).trans List.filter_sublist

lemma mem_put {e x : CacheEntry} {entries : List CacheEntry}
    (h : (entries.map (·.key)).Nodup) (hx : x ∈ put e entries) :
    x = e ∨ x.key ≠ e.key ∧ x ∈ entries := by
  induction entries with
  | nil => exact Or.inl (by simpa [put] using hx)
  | cons f rest ih =>
    obtain ⟨hf, hrest⟩ := List.nodup_cons.mp h
    rw [put] at hx
    split at hx
    · rename_i he
      have he : f.key = e.key := by simpa using he
      rcases List.mem_cons.mp hx with rfl | hx
      · exact Or.inl rfl
      · refine Or.inr ⟨fun hk => hf ?_, List.mem_cons_of_mem _ hx⟩
        exact List.mem_map.mpr ⟨x, hx, hk.trans he.symm⟩
    · rename_i hne
      rcases List.mem_cons.mp hx with rfl | hx
      · exact Or.inr ⟨by simpa using hne, List.mem_cons_self⟩
      · rcases ih hrest hx with rfl | ⟨hk, hx⟩
        · exact Or.inl rfl
        · exact Or.inr ⟨hk, List.mem_cons_of_mem _ hx⟩

lemma nodup_put {e : CacheEntry} {entries : List CacheEntry}
    (h : (entries.map (·.key)).Nodup) : ((put e entries).map (·.key)).Nodup := by
  induction entries with
  | nil => simp [put]
  | cons f rest ih =>
    obtain ⟨hf, hrest⟩ := List.nodup_cons.mp h
    rw [put]
    split
    · rename_i he
      have he : f.key = e.key := by simpa using he
      rw [List.map_cons, ← he]
      exact h
    · rename_i hne
      refine List.nodup_cons.mpr ⟨fun hm => ?_, ih hrest⟩
      obtain ⟨x, hx, hk⟩ := List.mem_map.mp hm
      rcases mem_put hrest hx with rfl | ⟨-, hx⟩
      · exact hne (by simpa using hk.symm)
      · exact hf (List.mem_map.mpr ⟨x, hx, hk⟩)

def roomy (m : MemoryCache) (key : String) : MemoryCache :=
  if (m.find? key).isNone && decide (m.capacity ≤ m.size) then m.makeRoom else m

lemma set_eq (m : MemoryCache) (key value : String) (ttl : Duration) :
    (m.set key value ttl).entries =
      put ⟨key, value, (m.roomy key).clock + ttl.nanos⟩ (m.roomy key).entries ∧
        (m.set key value ttl).clock = (m.roomy key).clock := ⟨rfl, rfl⟩

lemma roomy_spec (m : MemoryCache) (key : String) :
    (m.roomy key).entries.Sublist m.entries ∧ (m.roomy key).clock = m.clock := by
  rw [roomy]
  split
  · refine ⟨sublist_makeRoom m, ?_⟩
    rw [makeRoom]
    simp only
    split <;> rfl
  · exact ⟨.refl _, rfl⟩

lemma Distinct.set (h : m.Distinct) (ttl : Duration) : (m.set key value ttl).Distinct := by
  rw [Distinct, (m.set_eq key value ttl).1]
  exact nodup_put (h.sublist (m.roomy_spec key).1)

lemma live_of_set (h : m.Distinct) {ttl : Duration} (hl : (m.set key value ttl).Live k v) :
    (k = key ∧ v = value) ∨ (k ≠ key ∧ m.Live k v) := by
  obtain ⟨hs, hc⟩ := m.roomy_spec key
  obtain ⟨he, hclock⟩ := m.set_eq key value ttl
  obtain ⟨e, hm, hk, hv, hl⟩ := hl
  rw [he] at hm
  rcases mem_put (h.sublist hs) hm with rfl | ⟨hne, hm⟩
  · exact Or.inl ⟨hk.symm, hv.symm⟩
  · refine Or.inr ⟨hk ▸ hne, e, hs.subset hm, hk, hv, ?_⟩
    rw [isLive, hclock, hc] at hl
    exact hl

lemma live_of_erase (hl : (m.erase key).Live k v) : k ≠ key ∧ m.Live k v := by
  refine ⟨?_, hl.sublist (sublist_erase m key) (Nat.le_refl _)⟩
  obtain ⟨e, hm, hk, -⟩ := hl
  have := (List.mem_filter.mp hm).2
  rw [← hk]
  simpa using this

lemma mem_keys (hl : m.Live k v) {pattern : String} (hp : globMatches pattern k = true) :
    k ∈ m.keys pattern := by
  obtain ⟨e, hm, rfl, -, hl⟩ := hl
  refine List.mem_map.mpr ⟨e, List.mem_filter.mpr ⟨hm, ?_⟩, rfl⟩
  rw [hl, hp]
  rfl

end MemoryCache

structure Mishap where
  loses : String → Bool
  passes : Duration

structure UnsteadyCache where
  memory : MemoryCache
  mishaps : Nat → Mishap
  calls : Nat
  distinct : memory.Distinct

namespace UnsteadyCache

def ofCapacity (n : Nat) (mishaps : Nat → Mishap) : UnsteadyCache :=
  ⟨.ofCapacity n, mishaps, 0, List.nodup_nil⟩

def suffered (c : UnsteadyCache) : MemoryCache :=
  { c.memory with
    entries := c.memory.entries.filter fun e => !(c.mishaps c.calls).loses e.key
    clock := c.memory.clock + (c.mishaps c.calls).passes.nanos }

lemma sublist_suffered (c : UnsteadyCache) : c.suffered.entries.Sublist c.memory.entries :=
  List.filter_sublist

lemma distinct_suffered (c : UnsteadyCache) : c.suffered.Distinct :=
  c.distinct.sublist c.sublist_suffered

lemma live_of_suffered {c : UnsteadyCache} {k v : String} (h : c.suffered.Live k v) :
    c.memory.Live k v :=
  h.sublist c.sublist_suffered (Nat.le_add_right _ _)

def next (c : UnsteadyCache) (memory : MemoryCache) (h : memory.Distinct) : UnsteadyCache :=
  ⟨memory, c.mishaps, c.calls + 1, h⟩

instance : CacheService UnsteadyCache where
  get c key := (.ok (c.suffered.get key).1, c.next (c.suffered.get key).2
    (c.distinct_suffered.sublist (c.suffered.get_spec key).2.1))
  set c key value ttl := (.ok (), c.next (c.suffered.set key value ttl) (c.distinct_suffered.set ttl))
  delete c key := (.ok (), c.next (c.suffered.erase key)
    (c.distinct_suffered.sublist (c.suffered.sublist_erase key)))
  keys c pattern := (.ok (c.suffered.keys pattern), c.next c.suffered c.distinct_suffered)

instance : LosingCache UnsteadyCache where
  Holds c := c.memory.Live
  get_spec c key := by
    obtain ⟨hlive, hs, hc⟩ := c.suffered.get_spec key
    exact ⟨_, _, rfl, fun v hv => live_of_suffered (hlive v hv),
      fun k v h => live_of_suffered (h.sublist hs (Nat.le_of_eq hc.symm))⟩
  set_spec c key value ttl :=
    ⟨_, rfl, fun _ _ h => (MemoryCache.live_of_set c.distinct_suffered h).imp_right
      (And.imp_right live_of_suffered)⟩
  delete_spec c key :=
    ⟨_, rfl, fun _ _ h => (MemoryCache.live_of_erase h).imp_right live_of_suffered⟩
  keys_spec c pattern :=
    ⟨_, _, rfl, fun _ _ h => live_of_suffered h, fun _ _ h hp => MemoryCache.mem_keys h hp⟩

end UnsteadyCache

end AccessControl
