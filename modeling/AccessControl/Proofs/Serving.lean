import AccessControl.Proofs.KeyPatterns
import AccessControl.Proofs.LosingCaches
import AccessControl.Proofs.Windows
import AccessControl.Staleness

/-! What the evaluation cache can serve: a value under its key with all its markers. Nothing but a
write adds to it, and an invalidation takes away all that it reaches. -/

namespace AccessControl

variable {σ : Type} [LosingCache σ]

open LosingCache (Holds)
open CacheKey (About Plain)

def Shrunk (c c' : σ) : Prop :=
  ∀ k v, Holds c' k v → Holds c k v

lemma Shrunk.refl (c : σ) : Shrunk c c := fun _ _ h => h

lemma Shrunk.trans {c c' c'' : σ} (h : Shrunk c c') (h' : Shrunk c' c'') : Shrunk c c'' :=
  fun k v hk => h k v (h' k v hk)

namespace EvaluationCache

structure Served {α : Type} (kept : Kept α) (c : σ) (key : String) (value : α) : Prop where
  text : ∃ text, Holds c key text ∧ kept.decode text = some value
  markers : ∀ role ∈ kept.roles value, ∃ text, Holds c (CacheKey.marker role key) text

variable {α : Type} {kept : Kept α} {key : String} {value : α}

lemma Served.of_shrunk {c c' : σ} (h : Served kept c' key value) (hs : Shrunk c c') :
    Served kept c key value := by
  obtain ⟨text, ht, hd⟩ := h.text
  refine ⟨⟨text, hs _ _ ht, hd⟩, fun role hr => ?_⟩
  obtain ⟨m, hm⟩ := h.markers role hr
  exact ⟨m, hs _ _ hm⟩

lemma remove_spec (c : σ) (key : String) :
    Shrunk c (remove c key) ∧ ∀ v, ¬ Holds (remove c key) key v := by
  obtain ⟨c', hc, hh⟩ := LosingCache.delete_spec c key
  have he : remove c key = c' := by rw [remove, hc]
  rw [he]
  exact ⟨fun k v h => (hh k v h).2, fun v h => (hh key v h).1 rfl⟩

lemma read_spec (c : σ) (key : String) :
    Shrunk c (read c key).2 ∧ ∀ text, (read c key).1 = some text → Holds c key text := by
  obtain ⟨value, c', hc, hv, hh⟩ := LosingCache.get_spec c key
  have he : read c key = (value, c') := by rw [read, hc]
  rw [he]
  exact ⟨hh, hv⟩

lemma list_spec (c : σ) (pattern : String) : Shrunk c (list c pattern).2 ∧
    ∀ k v, Holds (list c pattern).2 k v → globMatches pattern k = true →
      k ∈ (list c pattern).1 := by
  obtain ⟨keys, c', hc, hh, hk⟩ := LosingCache.keys_spec c pattern
  have he : list c pattern = (keys, c') := by rw [list, hc]
  rw [he]
  exact ⟨hh, hk⟩

lemma markersIntact_spec (c : σ) (key : String) (roles : List String) :
    Shrunk c (markersIntact c key roles).2 ∧ ((markersIntact c key roles).1 = true →
      ∀ role ∈ roles, ∃ text, Holds c (CacheKey.marker role key) text) := by
  induction roles generalizing c with
  | nil => exact ⟨.refl c, by simp⟩
  | cons role roles ih =>
    obtain ⟨value, c', hc, hv, hh⟩ := LosingCache.get_spec c (CacheKey.marker role key)
    cases value with
    | none =>
      simp only [markersIntact, hc]
      exact ⟨.trans hh (remove_spec c' key).1, by simp⟩
    | some text =>
      simp only [markersIntact, hc]
      obtain ⟨hs, hm⟩ := ih c'
      refine ⟨.trans hh hs, fun h r hr => ?_⟩
      rcases List.mem_cons.mp hr with rfl | hr
      · exact ⟨text, hv text rfl⟩
      · obtain ⟨m, hm⟩ := hm h r hr
        exact ⟨m, hh _ _ hm⟩

lemma fetch_spec (kept : Kept α) (c : σ) (key : String) (now : Instant) :
    Shrunk c (fetch kept c key now).2 ∧ ∀ value, (fetch kept c key now).1 = some value →
      Served kept c key value ∧ Before now (kept.validUntil value) := by
  obtain ⟨hread, htext⟩ := read_spec c key
  rw [fetch]
  split
  · rename_i c' hr
    rw [hr] at hread
    exact ⟨hread, by simp⟩
  · rename_i text c' hr
    rw [hr] at hread htext
    have htext : Holds c key text := htext text rfl
    split
    · exact ⟨.trans hread (remove_spec c' key).1, by simp⟩
    · rename_i value hd
      split
      · exact ⟨hread, by simp⟩
      · rename_i hv
        obtain ⟨hs, hm⟩ := markersIntact_spec c' key (Text.sortedDistinct (kept.roles value))
        split
        · rename_i c'' hi
          rw [hi] at hs hm
          refine ⟨.trans hread hs, fun value' he => ?_⟩
          obtain rfl := Option.some.inj he
          refine ⟨⟨⟨text, htext, hd⟩, fun role hr => ?_⟩, fun b hb => ?_⟩
          · obtain ⟨m, hm⟩ := hm rfl role (Text.mem_sortedDistinct.mpr hr)
            exact ⟨m, hread _ _ hm⟩
          · rw [hb] at hv
            simpa [← Instant.not_le] using hv
        · rename_i c'' hi
          rw [hi] at hs
          exact ⟨.trans hread hs, by simp⟩

lemma fetch_of_held {kept : Kept α} {c : σ} {key : String} {value : α}
    (hread : (read c key).1.isSome = true)
    (hheld : ∀ text, Holds c key text → kept.decode text = some value)
    (hbound : kept.validUntil value = none)
    (hmarkers : (markersIntact (read c key).2 key
      (Text.sortedDistinct (kept.roles value))).1 = true) (now : Instant) :
    (fetch kept c key now).1 = some value := by
  obtain ⟨text, htext⟩ := Option.isSome_iff_exists.mp hread
  have hdecode := hheld text ((read_spec c key).2 text htext)
  cases hr : read c key with
  | mk found c' =>
    rw [hr] at htext hmarkers
    obtain rfl : found = some text := htext
    cases hi : markersIntact c' key (Text.sortedDistinct (kept.roles value)) with
    | mk intact c'' =>
      rw [hi] at hmarkers
      obtain rfl : intact = true := hmarkers
      simp [fetch, hr, hdecode, hbound, hi]

lemma writeMarkers_spec (c : σ) (key : String) (ttl : Duration) (roles : List String) :
    ∃ c', writeMarkers c key ttl roles = (true, c') ∧ ∀ k v, Holds c' k v →
      (v = "" ∧ ∃ role ∈ roles, k = CacheKey.marker role key) ∨ Holds c k v := by
  induction roles generalizing c with
  | nil => exact ⟨c, rfl, fun k v h => Or.inr h⟩
  | cons role roles ih =>
    obtain ⟨c₁, hc, hh⟩ := LosingCache.set_spec c (CacheKey.marker role key) "" ttl
    obtain ⟨c₂, hw, hh'⟩ := ih c₁
    refine ⟨c₂, by simp only [writeMarkers, hc, hw], fun k v hk => ?_⟩
    rcases hh' k v hk with ⟨hv, r, hr, rfl⟩ | hk
    · exact Or.inl ⟨hv, r, List.mem_cons_of_mem _ hr, rfl⟩
    · rcases hh k v hk with ⟨rfl, hv⟩ | ⟨-, hk⟩
      · exact Or.inl ⟨hv, role, List.mem_cons_self, rfl⟩
      · exact Or.inr hk

lemma write_spec (c : σ) (key value : String) (ttl : Duration) (roles : List String) :
    ∀ k v, Holds (write c key value ttl roles) k v → (k = key ∧ v = value) ∨
      (k ≠ key ∧ ((v = "" ∧ ∃ role ∈ roles, k = CacheKey.marker role key) ∨ Holds c k v)) := by
  obtain ⟨c', hw, hh⟩ := writeMarkers_spec c key ttl (Text.sortedDistinct roles)
  obtain ⟨c'', hc, hh'⟩ := LosingCache.set_spec c' key value ttl
  have he : write c key value ttl roles = c'' := by simp only [write, hw, hc]
  intro k v hk
  rw [he] at hk
  refine (hh' k v hk).imp_right (And.imp_right fun hk => (hh k v hk).imp_left (And.imp_right ?_))
  rintro ⟨role, hr, rfl⟩
  exact ⟨role, Text.mem_sortedDistinct.mp hr, rfl⟩

lemma text_of_putDecision {ttl : Duration} {c : σ} {key text : String} {d : Decision}
    (hd : d.validUntil = none) (h : Holds (putDecision ttl c key d) key text) :
    text = d.json.written := by
  simp only [putDecision, Lifetimes.bounded, hd] at h
  rcases write_spec _ _ _ _ _ _ _ h with ⟨-, ht⟩ | ⟨hne, -⟩
  · exact ht
  · exact absurd rfl hne

lemma text_of_putRoles {ttl : Duration} {c : σ} {principal text : String} {ctx : Context}
    {e : EffectiveRoles} (he : e.validUntil = none)
    (h : Holds (putRoles ttl c principal ctx e) (CacheKey.roles principal ctx) text) :
    text = e.json.written := by
  simp only [putRoles, Lifetimes.bounded, he] at h
  rcases write_spec _ _ _ _ _ _ _ h with ⟨-, ht⟩ | ⟨hne, -⟩
  · exact ht
  · exact absurd rfl hne

lemma holds_of_putDecision {ttl : Duration} {c : σ} {key key' text : String} {d : Decision}
    (hkey : key ≠ key') (hmarkers : ∀ role ∈ d.roleIds, key ≠ CacheKey.marker role key')
    (h : Holds (putDecision ttl c key' d) key text) : Holds c key text := by
  rw [putDecision] at h
  split at h
  · rcases write_spec _ _ _ _ _ _ _ h with ⟨he, -⟩ | ⟨-, ⟨-, role, hr, he⟩ | h⟩
    · exact absurd he hkey
    · exact absurd he (hmarkers role hr)
    · exact h
  · exact h

lemma Served.of_write {c : σ} {key' text : String} {ttl : Duration} {roles : List String}
    {principal principal' : String} {ctx ctx' : Context}
    (h : Served kept (write c key' text ttl roles) key value) (hkey : About key principal ctx)
    (hkey' : About key' principal' ctx') (hroles : ∀ role ∈ roles, Plain role)
    (hnames : ∀ role ∈ kept.roles value, Plain role) :
    (key = key' ∧ kept.decode text = some value) ∨ (key ≠ key' ∧ Served kept c key value) := by
  obtain ⟨t, ht, hd⟩ := h.text
  rcases write_spec c key' text ttl roles key t ht with ⟨hk, rfl⟩ | ⟨hk, ht⟩
  · exact Or.inl ⟨hk, hd⟩
  · rcases ht with ⟨-, role, -, he⟩ | ht
    · exact absurd he (hkey.ne_marker role key')
    · refine Or.inr ⟨hk, ⟨t, ht, hd⟩, fun role hr => ?_⟩
      obtain ⟨m, hm⟩ := h.markers role hr
      rcases write_spec c key' text ttl roles _ m hm with ⟨he, -⟩ | ⟨-, ⟨-, role', hr', he⟩ | hm⟩
      · exact absurd he.symm (hkey'.ne_marker role key)
      · exact absurd (CacheKey.marker_injective (hnames role hr) (hroles role' hr') he).2 hk
      · exact ⟨m, hm⟩

lemma dropMarked_spec (role : String) (acc : Nat × σ) (marker : String) :
    Shrunk acc.2 (dropMarked role acc marker).2 ∧
      ∀ v, ¬ Holds (dropMarked role acc marker).2 marker v := by
  rw [dropMarked]
  split
  · rename_i key _
    obtain ⟨hs, hm⟩ := remove_spec (remove acc.2 key) marker
    exact ⟨.trans (remove_spec acc.2 key).1 hs, hm⟩
  · exact remove_spec acc.2 marker

lemma foldl_dropMarked (role : String) (markers : List String) (acc : Nat × σ) :
    Shrunk acc.2 (markers.foldl (dropMarked role) acc).2 ∧
      ∀ marker ∈ markers, ∀ v, ¬ Holds (markers.foldl (dropMarked role) acc).2 marker v := by
  induction markers generalizing acc with
  | nil => exact ⟨.refl _, by simp⟩
  | cons m markers ih =>
    obtain ⟨hs, hm⟩ := dropMarked_spec role acc m
    obtain ⟨hs', hms⟩ := ih (dropMarked role acc m)
    refine ⟨.trans hs hs', fun marker hmem v hv => ?_⟩
    rcases List.mem_cons.mp hmem with rfl | hmem
    · exact hm v (hs' _ _ hv)
    · exact hms marker hmem v hv

lemma invalidateRole_spec (c : σ) (role : String) : Shrunk c (invalidateRole c role).2 ∧
    ∀ key, '\n' ∉ key.toList → ∀ v, ¬ Holds (invalidateRole c role).2 (CacheKey.marker role key) v := by
  obtain ⟨hs, hl⟩ := list_spec c (CacheKey.markersOf role ++ "*")
  obtain ⟨hs', hm⟩ := foldl_dropMarked role (list c (CacheKey.markersOf role ++ "*")).1
    (0, (list c (CacheKey.markersOf role ++ "*")).2)
  refine ⟨.trans hs hs', fun key hkey v hv => ?_⟩
  exact hm _ (hl _ _ (hs' _ _ hv) (CacheKey.marker_matches hkey)) v hv

lemma foldl_remove (keys : List String) (c : σ) : Shrunk c (keys.foldl remove c) ∧
    ∀ key ∈ keys, ∀ v, ¬ Holds (keys.foldl remove c) key v := by
  induction keys generalizing c with
  | nil => exact ⟨.refl _, by simp⟩
  | cons k keys ih =>
    obtain ⟨hs, hk⟩ := remove_spec c k
    obtain ⟨hs', hks⟩ := ih (remove c k)
    refine ⟨.trans hs hs', fun key hmem v hv => ?_⟩
    rcases List.mem_cons.mp hmem with rfl | hmem
    · exact hk v (hs' _ _ hv)
    · exact hks key hmem v hv

lemma removeMatching_spec (c : σ) (pattern : String) : Shrunk c (removeMatching c pattern).2 ∧
    ∀ key, globMatches pattern key = true → ∀ v, ¬ Holds (removeMatching c pattern).2 key v := by
  obtain ⟨hs, hl⟩ := list_spec c pattern
  obtain ⟨hs', hk⟩ := foldl_remove (list c pattern).1 (list c pattern).2
  refine ⟨.trans hs hs', fun key hm v hv => ?_⟩
  exact hk key (hl _ _ (hs' _ _ hv) hm) v hv

lemma removeAll_two (c : σ) (pattern pattern' : String) :
    Shrunk c (removeAll c [pattern, pattern']).2 ∧
      ∀ key, globMatches pattern key = true ∨ globMatches pattern' key = true →
        ∀ v, ¬ Holds (removeAll c [pattern, pattern']).2 key v := by
  obtain ⟨hs, hm⟩ := removeMatching_spec c pattern
  obtain ⟨hs', hm'⟩ := removeMatching_spec (removeMatching c pattern).2 pattern'
  refine ⟨.trans hs hs', fun key h v hv => ?_⟩
  rcases h with h | h
  · exact hm key h v (hs' _ _ hv)
  · exact hm' key h v hv

end EvaluationCache

namespace Stale

def Reaches (names : List String) (principal : String) (ctx : Context) : Stale → Prop
  | .role id => id ∈ names
  | .principal id => id = principal
  | .group id => ctx.group = some id
  | .everything => True

open EvaluationCache

def Dropped (c c' : σ) (items : List Stale) : Prop :=
  Shrunk c c' ∧ ∀ {α : Type} {kept : Kept α} {key principal : String} {ctx : Context} {value : α},
    About key principal ctx → Served kept c' key value →
      ∀ item ∈ items, ¬ item.Reaches (kept.roles value) principal ctx

lemma dropped_drop (c : σ) (item : Stale) : Dropped c (drop c item).2 [item] := by
  have hgone : ∀ {α : Type} {kept : Kept α} {key : String} {value : α} {c' : σ},
      (∀ v, ¬ Holds c' key v) → ¬ Served kept c' key value := by
    rintro α kept key value c' h ⟨⟨text, ht, -⟩, -⟩
    exact h text ht
  cases item with
  | role id =>
    obtain ⟨hs, hm⟩ := invalidateRole_spec c id
    refine ⟨hs, fun hkey h item hi hr => ?_⟩
    obtain rfl := List.mem_singleton.mp hi
    obtain ⟨m, hm'⟩ := h.markers id hr
    exact hm _ hkey.unbroken m hm'
  | principal id =>
    obtain ⟨hs, hm⟩ := removeAll_two c (CacheKey.decisionsOf id) (CacheKey.rolesOf id)
    refine ⟨hs, fun hkey h item hi hr => ?_⟩
    obtain rfl := List.mem_singleton.mp hi
    obtain rfl : id = _ := hr
    exact hgone (hm _ hkey.principal_matches) h
  | group id =>
    obtain ⟨hs, hm⟩ := removeAll_two c (CacheKey.rolesWithin id) (CacheKey.decisionsWithin id)
    refine ⟨hs, fun hkey h item hi hr => ?_⟩
    obtain rfl := List.mem_singleton.mp hi
    exact hgone (hm _ (hkey.group_matches hr)) h
  | everything =>
    obtain ⟨hs, hm⟩ := removeAll_two c CacheKey.allRoles CacheKey.allDecisions
    exact ⟨hs, fun hkey h _ _ _ => hgone (hm _ hkey.all_matches) h⟩

lemma Dropped.cons {c c' c'' : σ} {item : Stale} {items : List Stale} (h : Dropped c c' [item])
    (h' : Dropped c' c'' items) : Dropped c c'' (item :: items) := by
  refine ⟨.trans h.1 h'.1, fun hkey hs i hi => ?_⟩
  rcases List.mem_cons.mp hi with rfl | hi
  · exact h.2 hkey (hs.of_shrunk h'.1) i List.mem_cons_self
  · exact h'.2 hkey hs i hi

lemma dropped_dropAll (c : σ) (items : List Stale) : Dropped c (dropAll c items).2 items := by
  have hfold : ∀ (items : List Stale) (acc : Nat × σ),
      Dropped acc.2 (items.foldl (fun acc item =>
        (acc.1 + (Stale.drop acc.2 item).1, (Stale.drop acc.2 item).2)) acc).2 items := by
    intro items
    induction items with
    | nil => exact fun acc => ⟨.refl _, fun _ _ _ hi => absurd hi List.not_mem_nil⟩
    | cons item items ih => exact fun acc => (dropped_drop acc.2 item).cons (ih _)
  exact hfold items (0, c)

end Stale

end AccessControl
