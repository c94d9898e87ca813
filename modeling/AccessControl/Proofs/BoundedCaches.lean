import AccessControl.Proofs.HonestCaches
import Mathlib.Data.List.Nodup

/-! The cache in memory is a map that forgets. It has no more entries than it has room for, and reads
back nothing that was not the last value set under the key. It is free to choose what makes room for a
new key: before every use its entries may have come to stand in any order, and time may have passed. -/

namespace AccessControl.MemoryCache

inductive Use where
  | call (use : CacheUse)
  | clear

def Use.act (m : MemoryCache) : Use → MemoryCache
  | .call use => use.act m
  | .clear => m.clear

def Waits (m : MemoryCache) (d : Duration) (m' : MemoryCache) : Prop :=
  ∃ entries, entries.Perm m.entries ∧ m' = { m.advance d with entries := entries }

structure Event where
  before : MemoryCache
  use : Use

inductive Run (capacity : Nat) : List Event → MemoryCache → Prop
  | opened : Run capacity [] (.ofCapacity capacity)
  | waits {history : List Event} {m m' : MemoryCache} {d : Duration} : Run capacity history m →
      m.Waits d m' → Run capacity history m'
  | used {history : List Event} {m : MemoryCache} (use : Use) : Run capacity history m →
      Run capacity (⟨m, use⟩ :: history) (use.act m)

def latest (key : String) : List Event → Option String
  | [] => none
  | ⟨_, .call (.set k value _)⟩ :: rest => if k = key then some value else latest key rest
  | ⟨_, .call (.delete k)⟩ :: rest => if k = key then none else latest key rest
  | ⟨_, .clear⟩ :: _ => none
  | ⟨_, .call (.get _)⟩ :: rest | ⟨_, .call (.keys _)⟩ :: rest => latest key rest

/-- The live entries of other keys that a set leaves out. -/
def displaced (m : MemoryCache) (key value : String) (ttl : Duration) : List CacheEntry :=
  m.entries.filter fun e =>
    m.isLive e && e.key ≠ key && e ∉ (m.set key value ttl).entries

def gets : List Event → Nat
  | [] => 0
  | ⟨_, .clear⟩ :: _ => 0
  | ⟨_, .call (.get _)⟩ :: rest => gets rest + 1
  | ⟨_, .call _⟩ :: rest => gets rest

def evicted : List Event → Nat
  | [] => 0
  | ⟨_, .clear⟩ :: _ => 0
  | ⟨m, .call (.set key value ttl)⟩ :: rest => evicted rest + (m.displaced key value ttl).length
  | ⟨_, .call _⟩ :: rest => evicted rest

variable {m m' : MemoryCache} {key value : String} {ttl d : Duration} {capacity : Nat}
  {history : List Event} {e x : CacheEntry} {entries : List CacheEntry}

/-! One entry. -/

lemma mem_put_of_ne (hx : x ∈ entries) (hne : x.key ≠ e.key) : x ∈ put e entries := by
  induction entries with
  | nil => cases hx
  | cons f rest ih =>
    rw [put]
    split
    · rename_i he
      rcases List.mem_cons.mp hx with rfl | hx
      · exact absurd (beq_iff_eq.mp he) hne
      · exact List.mem_cons_of_mem _ hx
    · rcases List.mem_cons.mp hx with rfl | hx
      · exact List.mem_cons_self
      · exact List.mem_cons_of_mem _ (ih hx)

lemma mem_put_self (e : CacheEntry) (entries : List CacheEntry) : e ∈ put e entries := by
  induction entries with
  | nil => exact List.mem_singleton_self e
  | cons f rest ih =>
    rw [put]
    split
    · exact List.mem_cons_self
    · exact List.mem_cons_of_mem _ ih

lemma length_put_le (e : CacheEntry) (entries : List CacheEntry) :
    (put e entries).length ≤ entries.length + 1 := by
  induction entries with
  | nil => exact Nat.le_refl _
  | cons f rest ih =>
    rw [put]
    split
    · exact Nat.le_succ _
    · exact Nat.succ_le_succ ih

lemma length_put_of_mem (hx : x ∈ entries) (hkey : x.key = e.key) :
    (put e entries).length = entries.length := by
  induction entries with
  | nil => cases hx
  | cons f rest ih =>
    rw [put]
    split
    · rfl
    · rename_i hne
      rcases List.mem_cons.mp hx with rfl | hx
      · exact absurd (beq_iff_eq.mpr hkey) hne
      · exact congrArg (· + 1) (ih hx)

lemma find?_of_mem (h : m.Distinct) (he : e ∈ m.entries) : m.find? e.key = some e := by
  cases hf : m.find? e.key with
  | none => simpa using List.find?_eq_none.mp hf e he
  | some x =>
    have hkey : x.key = e.key := by simpa using List.find?_some hf
    exact congrArg some (List.inj_on_of_nodup_map h (List.mem_of_find?_eq_some hf) he hkey)

/-! Making room. -/

def live (m : MemoryCache) : List CacheEntry := m.entries.filter m.isLive

def tenth (m : MemoryCache) : Nat := max (m.capacity / 10) 1

def Crowded (m : MemoryCache) (key : String) : Prop :=
  m.find? key = none ∧ m.capacity ≤ m.live.length

instance (m : MemoryCache) (key : String) : Decidable (m.Crowded key) :=
  inferInstanceAs (Decidable (_ ∧ _))

lemma makeRoom_eq (m : MemoryCache) : m.makeRoom =
    if m.live.length < m.capacity then { m with entries := m.live }
    else { m with
      entries := m.live.drop (min m.tenth m.live.length)
      evictions := m.evictions + min m.tenth m.live.length } := rfl

lemma roomy_of_crowded (hm : 0 < m.capacity) (h : m.Crowded key) :
    m.roomy key =
      { m with entries := m.live.drop m.tenth, evictions := m.evictions + m.tenth } := by
  obtain ⟨hnew, hfull⟩ := h
  have hsize : m.capacity ≤ m.size := Nat.le_trans hfull (List.length_filter_le _ _)
  have hcount : min m.tenth m.live.length = m.tenth := by
    rw [tenth]
    omega
  rw [roomy, hnew, if_pos (by simp [hsize]), makeRoom_eq, if_neg (Nat.not_lt.mpr hfull), hcount]

lemma roomy_of_not_crowded (h : ¬ m.Crowded key) :
    ((m.find? key).isSome = true ∧ m.roomy key = m ∨ (m.roomy key).size < m.capacity) ∧
      (m.roomy key).evictions = m.evictions ∧ m.live ⊆ (m.roomy key).entries := by
  rw [roomy]
  split
  · rename_i hfull
    simp only [Bool.and_eq_true, Option.isNone_iff_eq_none] at hfull
    have hroom : m.live.length < m.capacity := Nat.lt_of_not_le fun hle => h ⟨hfull.1, hle⟩
    rw [makeRoom_eq, if_pos hroom]
    exact ⟨Or.inr hroom, rfl, List.Subset.refl _⟩
  · rename_i hroom
    refine ⟨?_, rfl, List.filter_sublist.subset⟩
    cases hf : m.find? key with
    | some e => exact Or.inl ⟨rfl, rfl⟩
    | none => exact Or.inr (by simpa [hf] using hroom)

lemma roomy_counts (m : MemoryCache) (key : String) : (m.roomy key).capacity = m.capacity ∧
    (m.roomy key).hits = m.hits ∧ (m.roomy key).misses = m.misses := by
  rw [roomy]
  split
  · rw [makeRoom_eq]
    split <;> exact ⟨rfl, rfl, rfl⟩
  · exact ⟨rfl, rfl, rfl⟩

lemma size_set (hm : 0 < m.capacity) (hsize : m.size ≤ m.capacity) :
    (m.set key value ttl).size ≤ m.capacity := by
  have hput := length_put_le ⟨key, value, (m.roomy key).clock + ttl.nanos⟩ (m.roomy key).entries
  rw [← (m.set_eq key value ttl).1] at hput
  by_cases h : m.Crowded key
  · rw [roomy_of_crowded hm h] at hput
    have hlive : m.live.length ≤ m.size := List.length_filter_le _ _
    have htenth : 1 ≤ m.tenth := Nat.le_max_right _ _
    have hfull := h.2
    simp only [List.length_drop] at hput
    simp only [size] at hsize hlive ⊢
    omega
  · rcases (roomy_of_not_crowded h).1 with ⟨hstored, hsame⟩ | hroom
    · obtain ⟨e, he⟩ := Option.isSome_iff_exists.mp hstored
      have hkey : e.key = key := by simpa using List.find?_some he
      rw [size, (m.set_eq key value ttl).1, hsame,
        length_put_of_mem (List.mem_of_find?_eq_some he) hkey]
      exact hsize
    · simp only [size] at hroom ⊢
      omega

lemma filter_notMem_drop {α : Type} [DecidableEq α] {l : List α} (h : l.Nodup) (n : Nat) :
    (l.filter fun a => a ∉ l.drop n) = l.take n := by
  have hsplit := List.take_append_drop n l
  have hapart := (List.nodup_append.mp (hsplit.symm ▸ h)).2.2
  have htake : (l.take n).filter (fun a => a ∉ l.drop n) = l.take n :=
    List.filter_eq_self.mpr fun a ha => decide_eq_true fun hd => hapart a ha a hd rfl
  have hdrop : (l.drop n).filter (fun a => a ∉ l.drop n) = [] :=
    List.filter_eq_nil_iff.mpr fun a ha hnot => of_decide_eq_true hnot ha
  calc l.filter (fun a => a ∉ l.drop n)
      = (l.take n ++ l.drop n).filter (fun a => a ∉ l.drop n) := by rw [hsplit]
    _ = l.take n := by rw [List.filter_append, htake, hdrop, List.append_nil]

lemma mem_set (hd : m.Distinct) (hne : x.key ≠ key) :
    x ∈ (m.set key value ttl).entries ↔ x ∈ (m.roomy key).entries := by
  rw [(m.set_eq key value ttl).1]
  constructor
  · intro hx
    rcases mem_put (hd.sublist (m.roomy_spec key).1) hx with rfl | ⟨-, hx⟩
    · exact absurd rfl hne
    · exact hx
  · exact fun hx => mem_put_of_ne hx hne

lemma length_displaced (hm : 0 < m.capacity) (hd : m.Distinct) (key value : String)
    (ttl : Duration) : (m.displaced key value ttl).length =
      if m.Crowded key then m.tenth else 0 := by
  have hothers : m.displaced key value ttl =
      m.live.filter fun e => e.key ≠ key && e ∉ (m.roomy key).entries := by
    rw [displaced, live, List.filter_filter]
    refine List.filter_congr fun e _ => ?_
    by_cases hne : e.key = key
    · simp [hne]
    · simp [hne, mem_set hd hne, Bool.and_comm]
  rw [hothers]
  split
  · rename_i h
    have hnew : ∀ e ∈ m.live, e.key ≠ key := fun e he => by
      simpa using List.find?_eq_none.mp h.1 e (List.mem_filter.mp he).1
    have hnodup : m.live.Nodup := (hd.of_map _).filter _
    have hdropped : (m.live.filter fun e => e.key ≠ key && e ∉ (m.roomy key).entries) =
        m.live.filter fun e => e ∉ m.live.drop m.tenth := by
      refine List.filter_congr fun e he => ?_
      rw [roomy_of_crowded hm h]
      simp [hnew e he]
    have hfull := h.2
    rw [hdropped, filter_notMem_drop hnodup, List.length_take, tenth]
    omega
  · rename_i h
    obtain ⟨-, -, hkept⟩ := roomy_of_not_crowded h
    rw [List.length_eq_zero_iff, List.filter_eq_nil_iff]
    intro e he hout
    simp [hkept he] at hout

lemma evictions_set (hm : 0 < m.capacity) (hd : m.Distinct) (key value : String)
    (ttl : Duration) : (m.set key value ttl).evictions =
      m.evictions + (m.displaced key value ttl).length := by
  rw [length_displaced hm hd, show (m.set key value ttl).evictions = (m.roomy key).evictions from rfl]
  split
  · rename_i h
    rw [roomy_of_crowded hm h]
  · rename_i h
    exact (roomy_of_not_crowded h).2.1

/-! Runs. -/

structure Sound (capacity : Nat) (history : List Event) (m : MemoryCache) : Prop where
  capacity : m.capacity = max capacity 1
  distinct : m.Distinct
  bounded : m.size ≤ m.capacity
  truthful : ∀ e ∈ m.entries, latest e.key history = some e.value
  gets : m.hits + m.misses = gets history
  evictions : m.evictions = evicted history

lemma Sound.positive (h : Sound capacity history m) : 0 < m.capacity := by
  rw [h.capacity]
  exact Nat.le_max_right _ _

lemma sound_ofCapacity (capacity : Nat) : Sound capacity [] (.ofCapacity capacity) :=
  ⟨rfl, List.nodup_nil, Nat.zero_le _, fun _ he => absurd he List.not_mem_nil, rfl, rfl⟩

lemma Sound.waits (h : Sound capacity history m) (hw : m.Waits d m') :
    Sound capacity history m' := by
  obtain ⟨entries, hperm, rfl⟩ := hw
  refine ⟨h.capacity, (hperm.map _).nodup_iff.mpr h.distinct, ?_, fun e he => ?_, h.gets,
    h.evictions⟩
  · exact Nat.le_trans (Nat.le_of_eq hperm.length_eq) h.bounded
  · exact h.truthful e (hperm.subset he)

lemma Sound.get (h : Sound capacity history m) (key : String) :
    Sound capacity (⟨m, .call (.get key)⟩ :: history) (m.get key).2 := by
  have hs := (m.get_spec key).2.1
  have hcounts : (m.get key).2.capacity = m.capacity ∧
      (m.get key).2.hits + (m.get key).2.misses = m.hits + m.misses + 1 ∧
      (m.get key).2.evictions = m.evictions := by
    rw [MemoryCache.get]
    cases m.find? key with
    | none => exact ⟨rfl, rfl, rfl⟩
    | some e =>
      simp only
      split
      · exact ⟨rfl, Nat.add_right_comm _ _ _, rfl⟩
      · exact ⟨rfl, rfl, rfl⟩
  obtain ⟨hcapacity, hgets, hevictions⟩ := hcounts
  refine ⟨hcapacity.trans h.capacity, h.distinct.sublist hs, ?_, fun e he => ?_, ?_, ?_⟩
  · rw [hcapacity]
    exact Nat.le_trans hs.length_le h.bounded
  · exact h.truthful e (hs.subset he)
  · rw [hgets, h.gets, MemoryCache.gets]
  · rw [hevictions, h.evictions, evicted]
    simp

lemma Sound.set (h : Sound capacity history m) (key value : String) (ttl : Duration) :
    Sound capacity (⟨m, .call (.set key value ttl)⟩ :: history) (m.set key value ttl) := by
  have hm := h.positive
  obtain ⟨hcapacity, hhits, hmisses⟩ := m.roomy_counts key
  refine ⟨hcapacity.trans h.capacity, h.distinct.set ttl, ?_, fun e he => ?_, ?_, ?_⟩
  · exact Nat.le_trans (size_set hm h.bounded) (Nat.le_of_eq hcapacity.symm)
  · obtain ⟨hs, -⟩ := m.roomy_spec key
    rw [(m.set_eq key value ttl).1] at he
    rw [latest]
    rcases mem_put (h.distinct.sublist hs) he with rfl | ⟨hne, he⟩
    · exact if_pos rfl
    · rw [if_neg (Ne.symm hne)]
      exact h.truthful e (hs.subset he)
  · calc (m.set key value ttl).hits + (m.set key value ttl).misses
        = m.hits + m.misses := congrArg₂ (· + ·) hhits hmisses
      _ = MemoryCache.gets history := h.gets
  · rw [evictions_set hm h.distinct, h.evictions, evicted]

lemma Sound.erase (h : Sound capacity history m) (key : String) :
    Sound capacity (⟨m, .call (.delete key)⟩ :: history) (m.erase key) := by
  have hs := m.sublist_erase key
  refine ⟨h.capacity, h.distinct.sublist hs, ?_, fun e he => ?_, h.gets, h.evictions⟩
  · exact Nat.le_trans hs.length_le h.bounded
  · have hne : e.key ≠ key := by simpa using (List.mem_filter.mp he).2
    rw [latest, if_neg (Ne.symm hne)]
    exact h.truthful e (hs.subset he)

lemma Sound.clear (h : Sound capacity history m) :
    Sound capacity (⟨m, .clear⟩ :: history) m.clear := by
  refine ⟨?_, List.nodup_nil, Nat.zero_le _, fun _ he => absurd he List.not_mem_nil, rfl, rfl⟩
  calc m.clear.capacity = max m.capacity 1 := rfl
    _ = m.capacity := Nat.max_eq_left h.positive
    _ = max capacity 1 := h.capacity

lemma Sound.act (h : Sound capacity history m) (use : Use) :
    Sound capacity (⟨m, use⟩ :: history) (use.act m) := by
  cases use with
  | call use =>
    cases use with
    | get key => exact h.get key
    | set key value ttl => exact h.set key value ttl
    | delete key => exact h.erase key
    | keys pattern =>
      exact ⟨h.capacity, h.distinct, h.bounded, h.truthful, h.gets, h.evictions⟩
  | clear => exact h.clear

lemma Run.sound (h : Run capacity history m) : Sound capacity history m := by
  induction h with
  | opened => exact sound_ofCapacity capacity
  | waits _ hw ih => exact ih.waits hw
  | used use _ ih => exact ih.act use

lemma Sound.latest_of_get {v : String} (h : Sound capacity history m)
    (hv : (m.get key).1 = some v) : latest key history = some v := by
  obtain ⟨e, he, rfl, rfl, -⟩ := (m.get_spec key).1 v hv
  exact h.truthful e he

lemma Sound.get_set (h : Sound capacity history m)
    (hw : (m.set key value ttl).Waits d m') (hd : d.nanos < ttl.nanos) :
    (m'.get key).1 = some value := by
  have hm' : m'.Distinct := ((h.set key value ttl).waits hw).distinct
  obtain ⟨entries, hperm, rfl⟩ := hw
  have he : (⟨key, value, (m.roomy key).clock + ttl.nanos⟩ : CacheEntry) ∈ entries := by
    refine hperm.mem_iff.mpr ?_
    rw [(m.set_eq key value ttl).1]
    exact mem_put_self _ _
  have hlive : (m.roomy key).clock + d.nanos < (m.roomy key).clock + ttl.nanos :=
    Nat.add_lt_add_left hd _
  -- The entry is found wherever it stands, as no other has its key.
  rw [MemoryCache.get, find?_of_mem hm' he]
  exact congrArg Prod.fst (if_pos (decide_eq_true hlive))

theorem bounded_truthful (h : Run capacity history m) :
    m.size ≤ max capacity 1 ∧
      (∀ key v, (m.get key).1 = some v → latest key history = some v) ∧
      (∀ key value ttl d m', (m.set key value ttl).Waits d m' → d.nanos < ttl.nanos →
        (m'.get key).1 = some value) ∧
      (∀ key value ttl, (m.displaced key value ttl).length =
        if m.find? key = none ∧ max capacity 1 ≤ (m.entries.filter m.isLive).length then
          max (capacity / 10) 1
        else 0) ∧
      m.hits + m.misses = gets history ∧ m.evictions = evicted history := by
  have hs := h.sound
  refine ⟨Nat.le_trans hs.bounded (Nat.le_of_eq hs.capacity), fun key v => hs.latest_of_get,
    fun key value ttl d m' => hs.get_set, fun key value ttl => ?_, hs.gets, hs.evictions⟩
  have htenth : max (capacity / 10) 1 = m.tenth := by
    rw [tenth, hs.capacity]
    omega
  rw [length_displaced hs.positive hs.distinct, htenth, ← hs.capacity]
  rfl

def single : MemoryCache := (ofCapacity 2).set "a" "1" ⟨5⟩
def pair : MemoryCache := single.set "b" "2" ⟨9⟩

def turned : MemoryCache := { pair.advance ⟨3⟩ with entries := pair.entries.reverse }
def third : Event := ⟨turned, .call (.set "c" "3" ⟨9⟩)⟩
def earlier : List Event :=
  [⟨single, .call (.set "b" "2" ⟨9⟩)⟩, ⟨ofCapacity 2, .call (.set "a" "1" ⟨5⟩)⟩]

theorem bounded_truthful_third :
    Run 2 (third :: earlier) (turned.set "c" "3" ⟨9⟩) ∧
      (turned.displaced "c" "3" ⟨9⟩).length = 1 ∧
      latest "a" (third :: earlier) = some "1" ∧
      (turned.set "c" "3" ⟨9⟩).evictions = evicted (third :: earlier) := by
  have hturned : Run 2 earlier turned := by
    have hpair : Run 2 earlier pair :=
      .used (.call (.set "b" "2" ⟨9⟩)) (.used (.call (.set "a" "1" ⟨5⟩)) .opened)
    exact .waits hpair ⟨pair.entries.reverse, List.reverse_perm _, rfl⟩
  have hthird : Run 2 (third :: earlier) (turned.set "c" "3" ⟨9⟩) :=
    .used (.call (.set "c" "3" ⟨9⟩)) hturned
  obtain ⟨-, -, -, hdisplaced, -⟩ := bounded_truthful hturned
  obtain ⟨-, htrue, -, -, -, hevicted⟩ := bounded_truthful hthird
  refine ⟨hthird, ?_, htrue "a" "1" (by decide +kernel), hevicted⟩
  rw [hdisplaced, if_pos (by decide +kernel)]
  rfl

end AccessControl.MemoryCache
