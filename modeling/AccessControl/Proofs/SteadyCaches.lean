import AccessControl.Proofs.CachedDecisions
import AccessControl.Proofs.Serving

/-! A cache that nothing befalls, and that has room, gives back what was written to it, and drops for a
role only what a marker of the role leads to. -/

namespace AccessControl

open LosingCache (Holds)
open CacheKey (Plain marker markersOf)

namespace UnsteadyCache

def calm : Nat → Mishap := fun _ => ⟨fun _ => false, .zero⟩

variable {c : UnsteadyCache} {n : Nat} {key value pattern : String} {ttl : Duration}

lemma suffered_of_calm (h : c.mishaps = calm) : c.suffered = c.memory := by
  simp [suffered, h, calm, Duration.zero]

structure Roomy (c : UnsteadyCache) (n : Nat) : Prop where
  calm : c.mishaps = calm
  room : c.memory.size + n ≤ c.memory.capacity

lemma Roomy.mono {m : Nat} (h : c.Roomy n) (hm : m ≤ n) : c.Roomy m :=
  ⟨h.calm, Nat.le_trans (Nat.add_le_add_left hm _) h.room⟩

lemma roomy_ofCapacity (n : Nat) : (ofCapacity n calm).Roomy n :=
  ⟨rfl, by simp [ofCapacity, MemoryCache.ofCapacity, MemoryCache.size]⟩

lemma not_holds_ofCapacity (n : Nat) (mishaps : Nat → Mishap) (k v : String) :
    ¬ Holds (ofCapacity n mishaps) k v := by
  rintro ⟨entry, hentry, -⟩
  exact absurd hentry List.not_mem_nil

lemma Roomy.get (h : c.Roomy n) (key : String) : ∃ found c',
    CacheService.get c key = (.ok found, c') ∧ c'.Roomy n ∧ Shrunk c' c ∧
      ∀ text, Holds c key text → found = some text := by
  have hsame : c.suffered = c.memory := suffered_of_calm h.calm
  have hdistinct : c.suffered.Distinct := c.distinct_suffered
  refine ⟨_, _, rfl, ⟨h.calm, ?_⟩, fun k v hk => ?_, fun text hk => ?_⟩
  · change (c.suffered.get key).2.size + n ≤ (c.suffered.get key).2.capacity
    rw [MemoryCache.capacity_get, hsame]
    have hlength := (c.memory.get_spec key).2.1.length_le
    exact Nat.le_trans (Nat.add_le_add_right hlength n) h.room
  · change c.memory.Live k v at hk
    rw [← hsame] at hk
    exact hk.get hdistinct key
  · change c.memory.Live key text at hk
    rw [← hsame] at hk
    exact hk.found hdistinct

lemma Roomy.set (h : c.Roomy (n + 1)) (key value : String) (ht : 0 < ttl.nanos) : ∃ c',
    CacheService.set c key value ttl = (.ok (), c') ∧ c'.Roomy n ∧ Holds c' key value ∧
      ∀ k v, k ≠ key → Holds c k v → Holds c' k v := by
  have hsame : c.suffered = c.memory := suffered_of_calm h.calm
  have hroom := h.room
  have hspare : c.memory.size < c.memory.capacity := by omega
  refine ⟨_, rfl, ⟨h.calm, ?_⟩, ?_, fun k v hne hk => ?_⟩
  · have hlength := MemoryCache.length_put_le ⟨key, value, c.memory.clock + ttl.nanos⟩
      c.memory.entries
    have hentries := (c.memory.set_eq key value ttl).1
    rw [MemoryCache.roomy_of_spare hspare] at hentries
    have hcapacity : (c.memory.set key value ttl).capacity = c.memory.capacity :=
      (c.memory.roomy_counts key).1
    change (c.suffered.set key value ttl).size + n ≤ (c.suffered.set key value ttl).capacity
    rw [hsame]
    simp only [MemoryCache.size, hentries, hcapacity] at hroom ⊢
    omega
  · exact MemoryCache.live_set ht
  · change (c.suffered.set key value ttl).Live k v
    rw [hsame]
    exact MemoryCache.Live.set hk hspare hne

lemma Roomy.keys (h : c.Roomy n) (hnone : ∀ k v, Holds c k v → globMatches pattern k = false) :
    ∃ c', CacheService.keys c pattern = (.ok [], c') ∧ c'.Roomy n ∧ Shrunk c' c := by
  have hsame : c.suffered = c.memory := suffered_of_calm h.calm
  have hkeys : c.suffered.keys pattern = [] := by
    rw [hsame, MemoryCache.keys, List.map_eq_nil_iff, List.filter_eq_nil_iff]
    intro e he hmatches
    rw [Bool.and_eq_true] at hmatches
    have hno := hnone e.key e.value ⟨e, he, rfl, rfl, hmatches.1⟩
    exact Bool.false_ne_true (hno.symm.trans hmatches.2)
  refine ⟨c.next c.suffered c.distinct_suffered, ?_, ⟨h.calm, ?_⟩, fun k v hk => ?_⟩
  · change (Except.ok (c.suffered.keys pattern), _) = _
    rw [hkeys]
  · change c.suffered.size + n ≤ c.suffered.capacity
    rw [hsame]
    exact h.room
  · change c.suffered.Live k v
    rw [hsame]
    exact hk

end UnsteadyCache

namespace EvaluationCache

open UnsteadyCache (Roomy)

variable {c : UnsteadyCache} {n : Nat} {key text role : String} {ttl : Duration}
  {roles : List String} {α : Type} {kept : Kept α} {value : α} {now : Instant}

lemma read_of_roomy (h : c.Roomy n) (key : String) : (read c key).2.Roomy n ∧
    Shrunk (read c key).2 c ∧ ∀ text, Holds c key text → (read c key).1 = some text := by
  obtain ⟨found, c', hget, hroomy, hs, hfound⟩ := h.get key
  rw [EvaluationCache.read, hget]
  exact ⟨hroomy, hs, hfound⟩

lemma markersIntact_of_holds (h : c.Roomy n)
    (hm : ∀ role ∈ roles, ∃ text, Holds c (marker role key) text) :
    (markersIntact c key roles).1 = true := by
  induction roles generalizing c with
  | nil => rfl
  | cons role roles ih =>
    obtain ⟨found, c', hget, hroomy, hs, hfound⟩ := h.get (marker role key)
    obtain ⟨text, htext⟩ := hm role List.mem_cons_self
    obtain rfl := hfound text htext
    simp only [markersIntact, hget]
    refine ih hroomy fun r hr => ?_
    obtain ⟨text, htext⟩ := hm r (List.mem_cons_of_mem _ hr)
    exact ⟨text, hs _ _ htext⟩

lemma fetch_of_holds (h : c.Roomy n) (hheld : Holds c key text)
    (hdecode : kept.decode text = some value) (hbound : Before now (kept.validUntil value))
    (hm : ∀ role ∈ kept.roles value, ∃ text, Holds c (marker role key) text) :
    (fetch kept c key now).1 = some value := by
  obtain ⟨hroomy, hs, hread⟩ := read_of_roomy h key
  cases hr : read c key with
  | mk found c' =>
    rw [hr] at hroomy hs hread
    obtain rfl : found = some text := hread text hheld
    have hlive : (kept.validUntil value).any (fun b => decide (b ≤ now)) = false := by
      cases hb : kept.validUntil value with
      | none => rfl
      | some b => simpa [Instant.not_le] using hbound b hb
    have hintact : (markersIntact c' key (Text.sortedDistinct (kept.roles value))).1 = true := by
      refine markersIntact_of_holds hroomy fun role hr => ?_
      obtain ⟨text, htext⟩ := hm role (Text.mem_sortedDistinct.mp hr)
      exact ⟨text, hs _ _ htext⟩
    cases hi : markersIntact c' key (Text.sortedDistinct (kept.roles value)) with
    | mk intact c'' =>
      rw [hi] at hintact
      obtain rfl : intact = true := hintact
      simp [fetch, hr, hdecode, hlive, hi]

lemma fetch_of_empty (h : c.Roomy n) (hempty : ∀ k v, ¬ Holds c k v) (kept : Kept α)
    (key : String) (now : Instant) : ∃ c', fetch kept c key now = (none, c') ∧ c'.Roomy n ∧
      ∀ k v, ¬ Holds c' k v := by
  have hspec := read_spec c key
  obtain ⟨hroomy, -, -⟩ := read_of_roomy h key
  cases hr : read c key with
  | mk found c' =>
    rw [hr] at hspec hroomy
    cases found with
    | none =>
      exact ⟨c', by simp [fetch, hr], hroomy, fun k v hk => hempty k v (hspec.1 k v hk)⟩
    | some text => exact absurd (hspec.2 text rfl) (hempty key text)

lemma writeMarkers_of_roomy (h : c.Roomy (roles.length + n)) (key : String)
    (ht : 0 < ttl.nanos) : ∃ c', writeMarkers c key ttl roles = (true, c') ∧ c'.Roomy n ∧
      (∀ k, Holds c k "" → Holds c' k "") ∧ ∀ role ∈ roles, Holds c' (marker role key) "" := by
  induction roles generalizing c with
  | nil => exact ⟨c, rfl, by simpa using h, fun _ hk => hk, by simp⟩
  | cons role roles ih =>
    rw [List.length_cons, Nat.add_right_comm] at h
    obtain ⟨c₁, hset, h₁, hself, hother⟩ := h.set (marker role key) "" ht
    obtain ⟨c₂, hrest, h₂, hblank, hmarkers⟩ := ih h₁
    refine ⟨c₂, by simp only [writeMarkers, hset, hrest], h₂, fun k hk => hblank k ?_, ?_⟩
    · by_cases he : k = marker role key
      · exact he ▸ hself
      · exact hother k "" he hk
    · exact List.forall_mem_cons.mpr ⟨hblank _ hself, hmarkers⟩

lemma write_of_roomy (h : c.Roomy ((Text.sortedDistinct roles).length + 1 + n))
    (key text : String) (ht : 0 < ttl.nanos) : (write c key text ttl roles).Roomy n ∧
      Holds (write c key text ttl roles) key text ∧
      ∀ role ∈ roles, ∃ text', Holds (write c key text ttl roles) (marker role key) text' := by
  rw [Nat.add_assoc, Nat.add_comm 1] at h
  obtain ⟨c₁, hmarkers, h₁, -, hheld⟩ := writeMarkers_of_roomy h key ht
  obtain ⟨c₂, hset, h₂, hself, hother⟩ := h₁.set key text ht
  have he : write c key text ttl roles = c₂ := by simp only [write, hmarkers, hset]
  rw [he]
  exact ⟨h₂, hself, fun role hr =>
    ⟨"", hother _ "" (marker_ne role key) (hheld role (Text.mem_sortedDistinct.mpr hr))⟩⟩

def Unmarked (c : UnsteadyCache) (role : String) : Prop :=
  ∀ key text, ¬ Holds c (marker role key) text

lemma Unmarked.write {principal : String} {ctx : Context} (h : Unmarked c role)
    (hkey : CacheKey.About key principal ctx) (hrole : Plain role)
    (hroles : ∀ r ∈ roles, Plain r ∧ r ≠ role) : Unmarked (write c key text ttl roles) role := by
  intro key' text' hheld
  rcases write_spec _ _ _ _ _ _ _ hheld with ⟨he, -⟩ | ⟨-, ⟨-, r, hr, he⟩ | hheld⟩
  · exact hkey.ne_marker role key' he.symm
  · obtain ⟨hplain, hne⟩ := hroles r hr
    exact hne (CacheKey.marker_injective hrole hplain he).1.symm
  · exact h key' text' hheld

lemma exists_of_matches_markersOf {k : String} (hstar : '*' ∉ role.toList)
    (h : globMatches (markersOf role ++ "*") k = true) : ∃ key, k = marker role key := by
  have hliteral : '*' ∉ (markersOf role).toList := by
    simpa [markersOf] using hstar
  have hfits := fits_of_globMatches h
  rw [String.toList_append] at hfits
  obtain ⟨rest, he, -⟩ := hfits.of_literal hliteral
  exact ⟨String.ofList rest, String.toList_inj.mp (by simp [marker, he])⟩

lemma invalidateRole_of_unmarked (h : c.Roomy n) (hu : Unmarked c role)
    (hstar : '*' ∉ role.toList) :
    (invalidateRole c role).2.Roomy n ∧ Shrunk (invalidateRole c role).2 c := by
  have hnone : ∀ k v, Holds c k v → globMatches (markersOf role ++ "*") k = false := by
    intro k v hk
    by_contra hmatches
    obtain ⟨key, rfl⟩ := exists_of_matches_markersOf hstar (Bool.not_eq_false _ ▸ hmatches)
    exact hu key v hk
  obtain ⟨c', hkeys, hroomy, hs⟩ := h.keys hnone
  have he : (invalidateRole c role).2 = c' := by
    simp [invalidateRole, list, hkeys]
  rw [he]
  exact ⟨hroomy, hs⟩

end EvaluationCache

end AccessControl
