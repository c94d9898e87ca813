import AccessControl.Cache.Evaluation
import AccessControl.Cache.Memory
import AccessControl.Proofs.BoundedCaches
import AccessControl.Proofs.CachedTexts
import AccessControl.Proofs.DecisionTexts
import AccessControl.Proofs.KeyPatterns

/-! A cached decision is found again as it was, as long as the service loses nothing of what it was
given. Two kinds of decisions fall out, both by leap seconds: one that was found in the leap second
at the end of a day and ends too soon after it is not written, and one that tells a leap second
within a minute is read back with the second that follows. -/

namespace AccessControl

/-! Services under watch. -/

/-- A cache service with a record of what it was given, the latest first. It notices when a call
fails to write, or does not find what was given, be it that the service lost it, that its time was
over or that the service fails. -/
structure WatchedCache (σ : Type) where
  service : σ
  given : List (String × String)
  lost : Bool

namespace WatchedCache

variable {σ : Type}

def ofService (c : σ) : WatchedCache σ := ⟨c, [], false⟩

def become (w : WatchedCache σ) (later : σ) : WatchedCache σ := { w with service := later }

@[simp]
lemma become_given (w : WatchedCache σ) (later : σ) : (w.become later).given = w.given := rfl

@[simp]
lemma become_lost (w : WatchedCache σ) (later : σ) : (w.become later).lost = w.lost := rfl

variable [CacheService σ]

instance : CacheService (WatchedCache σ) where
  get w key :=
    let reply := CacheService.get w.service key
    let missed := (w.given.lookup key).any fun text => reply.1.toOption != some (some text)
    (reply.1, { w with service := reply.2, lost := w.lost || missed })
  set w key value ttl :=
    let reply := CacheService.set w.service key value ttl
    (reply.1, ⟨reply.2, (key, value) :: w.given, w.lost || reply.1.toOption.isNone⟩)
  delete w key :=
    let reply := CacheService.delete w.service key
    (reply.1, { w with service := reply.2, given := w.given.filter (·.1 != key) })
  keys w pattern :=
    let reply := CacheService.keys w.service pattern
    (reply.1, { w with service := reply.2 })

variable {w w' : WatchedCache σ} {key value : String}

lemma set_kept {ttl : Duration} {reply : Except Fault Unit}
    (h : CacheService.set w key value ttl = (reply, w')) :
    CacheService.set w.service key value ttl = (reply, w'.service) ∧
      w'.given = (key, value) :: w.given ∧
      (w'.lost = false → w.lost = false ∧ reply = .ok ()) := by
  obtain ⟨rfl, rfl⟩ := Prod.mk.inj h
  refine ⟨rfl, rfl, fun hl => ?_⟩
  obtain ⟨hl, hreply⟩ := Bool.or_eq_false_iff.mp hl
  refine ⟨hl, ?_⟩
  cases hset : (CacheService.set w.service key value ttl).1 with
  | ok => rfl
  | error fault => simp [hset, Except.toOption] at hreply

lemma get_kept {reply : Except Fault (Option String)} (h : CacheService.get w key = (reply, w')) :
    CacheService.get w.service key = (reply, w'.service) ∧ w'.given = w.given ∧
      (w'.lost = false → w.lost = false ∧
        ∀ text, w.given.lookup key = some text → reply = .ok (some text)) := by
  obtain ⟨rfl, rfl⟩ := Prod.mk.inj h
  refine ⟨rfl, rfl, fun hl => ?_⟩
  obtain ⟨hl, hmissed⟩ := Bool.or_eq_false_iff.mp hl
  refine ⟨hl, fun text htext => ?_⟩
  rw [htext] at hmissed
  cases hget : (CacheService.get w.service key).1 with
  | ok found => simpa [hget, Except.toOption] using hmissed
  | error fault => simp [hget, Except.toOption] at hmissed

end WatchedCache

namespace EvaluationCache

open CacheKey (marker)

variable {σ α : Type} [CacheService σ] {w w' : WatchedCache σ} {key text : String} {ttl : Duration}
  {roles : List String} {kept : Kept α} {v : α} {now : Instant}

/-! What is written to a service under watch. -/

def givenMarkers (key : String) (roles : List String) : List (String × String) :=
  (roles.map fun role => (marker role key, "")).reverse

lemma writeMarkers_kept {all : Bool} (h : writeMarkers w key ttl roles = (all, w'))
    (hl : w'.lost = false) :
    w.lost = false ∧ all = true ∧ w'.given = givenMarkers key roles ++ w.given := by
  induction roles generalizing w with
  | nil =>
    obtain ⟨rfl, rfl⟩ := Prod.mk.inj h
    exact ⟨hl, rfl, rfl⟩
  | cons role roles ih =>
    rw [writeMarkers] at h
    split at h
    · rename_i w₁ hset
      obtain ⟨-, hgiven, hlost⟩ := WatchedCache.set_kept hset
      obtain ⟨hl₁, hall, hmarkers⟩ := ih h
      refine ⟨(hlost hl₁).1, hall, ?_⟩
      simp only [hmarkers, hgiven, givenMarkers, List.map_cons, List.reverse_cons,
        List.append_assoc, List.singleton_append]
    · rename_i fault w₁ hset
      obtain ⟨-, rfl⟩ := Prod.mk.inj h
      cases ((WatchedCache.set_kept hset).2.2 hl).2

lemma write_kept (h : (write w key text ttl roles).lost = false) :
    (write w key text ttl roles).given =
      (key, text) :: (givenMarkers key (Text.sortedDistinct roles) ++ w.given) := by
  rw [write] at h ⊢
  split at h
  · rename_i w₁ hmarkers
    obtain ⟨-, hgiven, hlost⟩ :=
      WatchedCache.set_kept (Prod.eta (CacheService.set w₁ key text ttl)).symm
    rw [hgiven, (writeMarkers_kept hmarkers (hlost h).1).2.2]
  · rename_i w₁ hmarkers
    cases (writeMarkers_kept hmarkers h).2.1

lemma service_write (w : WatchedCache σ) (key text : String) (ttl : Duration)
    (roles : List String) :
    (write w key text ttl roles).service = write w.service key text ttl roles := by
  have hmarkers : ∀ (w : WatchedCache σ) (roles : List String),
      writeMarkers w.service key ttl roles =
        ((writeMarkers w key ttl roles).1, (writeMarkers w key ttl roles).2.service) := by
    intro w roles
    induction roles generalizing w with
    | nil => rfl
    | cons role roles ih =>
      cases hset : CacheService.set w (marker role key) "" ttl with
      | mk reply w₁ =>
        simp only [writeMarkers, hset, (WatchedCache.set_kept hset).1]
        cases reply with
        | ok => exact ih w₁
        | error fault => rfl
  rw [write, write, hmarkers]
  cases writeMarkers w key ttl (Text.sortedDistinct roles) with
  | mk all w₁ => cases all <;> rfl

lemma marker_ne (role key : String) : marker role key ≠ key := by
  intro he
  have hlength := congrArg List.length (congrArg String.toList he)
  rw [CacheKey.toList_marker] at hlength
  simp only [List.length_append, List.length_cons] at hlength
  omega

lemma lookup_givenMarkers {role : String} (h : role ∈ roles) (rest : List (String × String)) :
    ((givenMarkers key roles ++ rest).lookup (marker role key)).isSome := by
  rw [List.lookup_append, Option.isSome_or, Bool.or_eq_true, List.lookup_isSome_iff]
  have hm : (marker role key, "") ∈ givenMarkers key roles :=
    List.mem_reverse.mpr (List.mem_map_of_mem h)
  exact Or.inl ⟨_, hm, beq_self_eq_true _⟩

/-! What is read from a service that has lost nothing. -/

lemma read_kept {found : Option String} (h : read w key = (found, w')) :
    read w.service key = (found, w'.service) ∧ w'.given = w.given ∧
      (w'.lost = false → w.lost = false ∧
        ∀ text, w.given.lookup key = some text → found = some text) := by
  rw [read] at h
  split at h
  · rename_i found₁ w₁ hget
    obtain ⟨rfl, rfl⟩ := Prod.mk.inj h
    obtain ⟨hservice, hsame, hlost⟩ := WatchedCache.get_kept hget
    refine ⟨by rw [read, hservice], hsame, fun hl => ⟨(hlost hl).1, fun text htext => ?_⟩⟩
    exact Except.ok.inj ((hlost hl).2 text htext)
  · rename_i fault w₁ hget
    obtain ⟨rfl, rfl⟩ := Prod.mk.inj h
    obtain ⟨hservice, hsame, hlost⟩ := WatchedCache.get_kept hget
    refine ⟨by rw [read, hservice], hsame, fun hl => ⟨(hlost hl).1, fun text htext => ?_⟩⟩
    cases (hlost hl).2 text htext

lemma markersIntact_kept {all : Bool} (h : markersIntact w key roles = (all, w')) :
    markersIntact w.service key roles = (all, w'.service) ∧
      (w'.lost = false → w.lost = false ∧
        ((∀ role ∈ roles, (w.given.lookup (marker role key)).isSome) → all = true)) := by
  induction roles generalizing w with
  | nil =>
    obtain ⟨rfl, rfl⟩ := Prod.mk.inj h
    exact ⟨rfl, fun hl => ⟨hl, fun _ => rfl⟩⟩
  | cons role roles ih =>
    have hfirst : (∀ r ∈ role :: roles, (w.given.lookup (marker r key)).isSome) →
        ∃ value, w.given.lookup (marker role key) = some value := fun hgiven =>
      Option.isSome_iff_exists.mp (hgiven role List.mem_cons_self)
    rw [markersIntact] at h
    split at h
    · rename_i value w₁ hget
      obtain ⟨hservice, hsame, hlost⟩ := WatchedCache.get_kept hget
      obtain ⟨hrest, hlost₁⟩ := ih h
      refine ⟨by rw [markersIntact, hservice]; exact hrest, fun hl => ?_⟩
      obtain ⟨hl₁, hall⟩ := hlost₁ hl
      refine ⟨(hlost hl₁).1, fun hgiven => hall fun r hr => ?_⟩
      exact hsame ▸ hgiven r (List.mem_cons_of_mem _ hr)
    · rename_i w₁ hget
      obtain ⟨rfl, rfl⟩ := Prod.mk.inj h
      obtain ⟨hservice, -, hlost⟩ := WatchedCache.get_kept hget
      have hservice' : markersIntact w.service key (role :: roles) =
          (false, (remove w₁ key).service) := by
        rw [markersIntact, hservice]
        rfl
      refine ⟨hservice', fun hl => ⟨(hlost hl).1, fun hgiven => ?_⟩⟩
      obtain ⟨value, hvalue⟩ := hfirst hgiven
      cases (hlost hl).2 value hvalue
    · rename_i fault w₁ hget
      obtain ⟨rfl, rfl⟩ := Prod.mk.inj h
      obtain ⟨hservice, -, hlost⟩ := WatchedCache.get_kept hget
      refine ⟨by rw [markersIntact, hservice], fun hl => ⟨(hlost hl).1, fun hgiven => ?_⟩⟩
      obtain ⟨value, hvalue⟩ := hfirst hgiven
      cases (hlost hl).2 value hvalue

lemma read_lost_of_fetch {found : Option String} (hread : read w key = (found, w'))
    (h : (fetch kept w key now).2.lost = false) : w'.lost = false := by
  rw [fetch, hread] at h
  cases found with
  | none => exact h
  | some text =>
    simp only at h
    split at h
    · exact h
    · rename_i value _
      split at h
      · exact h
      · cases hintact : markersIntact w' key (Text.sortedDistinct (kept.roles value)) with
        | mk all w₁ =>
          rw [hintact] at h
          cases all <;> exact ((markersIntact_kept hintact).2 h).1

lemma lost_of_fetch (h : (fetch kept w key now).2.lost = false) : w.lost = false := by
  have hread : read w key = ((read w key).1, (read w key).2) := rfl
  exact ((read_kept hread).2.2 (read_lost_of_fetch hread h)).1

lemma fetch_kept (h : (fetch kept w key now).2.lost = false)
    (hgiven : w.given.lookup key = some text)
    (hmarkers : ∀ role ∈ kept.roles v, (w.given.lookup (marker role key)).isSome)
    (hnow : ∀ b, kept.validUntil v = some b → now < b) :
    (fetch kept w.service key now).1 = some v ↔ kept.decode text = some v := by
  cases hread : read w key with
  | mk found w₁ =>
    obtain ⟨hservice, hsame, hfound⟩ := read_kept hread
    obtain rfl := (hfound (read_lost_of_fetch hread h)).2 text hgiven
    rw [fetch, hread] at h
    rw [fetch, hservice]
    cases hdecode : kept.decode text with
    | none => simp [hdecode]
    | some value =>
      simp only [hdecode] at h ⊢
      constructor
      · intro hv
        split at hv
        · cases hv
        · split at hv
          · exact hv
          · cases hv
      · intro hv
        obtain rfl := Option.some.inj hv
        have hlive : (kept.validUntil value).any (fun b => decide (b ≤ now)) = false := by
          cases hb : kept.validUntil value with
          | none => rfl
          | some b => simpa [Instant.not_le] using hnow b hb
        cases hintact : markersIntact w₁ key (Text.sortedDistinct (kept.roles value)) with
        | mk all w₂ =>
          obtain ⟨hintact', hlost⟩ := markersIntact_kept hintact
          rw [hlive, hintact] at h
          rw [hlive, hintact']
          have hl : w₂.lost = false := by cases all <;> exact h
          obtain rfl : all = true := (hlost hl).2 fun role hrole => by
            rw [hsame]
            exact hmarkers role (Text.mem_sortedDistinct.mp hrole)
          rfl

lemma fetch_write_iff (c later : σ)
    (h : (fetch kept ((write (WatchedCache.ofService c) key text ttl (kept.roles v)).become later)
      key now).2.lost = false)
    (hnow : ∀ b, kept.validUntil v = some b → now < b) :
    (fetch kept later key now).1 = some v ↔ kept.decode text = some v := by
  have hlost := lost_of_fetch h
  rw [WatchedCache.become_lost] at hlost
  have hgiven := write_kept hlost
  refine fetch_kept h ?_ (fun role hrole => ?_) hnow
  · rw [WatchedCache.become_given, hgiven, List.lookup_cons_self]
  · rw [WatchedCache.become_given, hgiven, List.lookup_cons, beq_false_of_ne (marker_ne role key)]
    exact lookup_givenMarkers (Text.mem_sortedDistinct.mpr hrole) _

end EvaluationCache

namespace Lifetimes

lemma bounded_pos {ttl left : Duration} {bound : Option Instant} {t : Instant}
    (ht : 0 < ttl.nanos) (h : bounded ttl bound t = some left) : 0 < left.nanos := by
  rw [bounded.eq_def] at h
  split at h
  · obtain rfl := Option.some.inj h
    exact ht
  · simp only at h
    split at h
    · rename_i b hleft
      obtain rfl := Option.some.inj h
      rw [Duration.min]
      split
      · exact ht
      · exact Int.lt_toNat.mpr hleft
    · cases h

end Lifetimes

/-! The cache in memory loses nothing while it has room and no time passes. -/

namespace MemoryCache

variable {m : MemoryCache} {key value k v : String} {ttl : Duration}

lemma roomy_of_spare (h : m.size < m.capacity) (key : String) : m.roomy key = m := by
  have hspare : ¬ m.capacity ≤ m.size := Nat.not_le.mpr h
  rw [roomy, if_neg (by simp [hspare])]

lemma isLive_set (e : CacheEntry) : (m.set key value ttl).isLive e = m.isLive e := by
  rw [isLive, isLive, (m.set_eq key value ttl).2, (m.roomy_spec key).2]

lemma live_set (h : 0 < ttl.nanos) : (m.set key value ttl).Live key value := by
  obtain ⟨hentries, -⟩ := m.set_eq key value ttl
  refine ⟨_, hentries ▸ mem_put_self _ _, rfl, rfl, ?_⟩
  rw [isLive_set, isLive, (m.roomy_spec key).2]
  exact decide_eq_true (Nat.lt_add_of_pos_right h)

lemma Live.set (hl : m.Live k v) (h : m.size < m.capacity) (hne : k ≠ key) :
    (m.set key value ttl).Live k v := by
  obtain ⟨e, he, rfl, rfl, hlive⟩ := hl
  refine ⟨e, ?_, rfl, rfl, (isLive_set e).trans hlive⟩
  rw [(m.set_eq key value ttl).1, roomy_of_spare h]
  exact mem_put_of_ne he hne

lemma Live.found (hl : m.Live k v) (hd : m.Distinct) : (m.get k).1 = some v := by
  obtain ⟨e, he, rfl, rfl, hlive⟩ := hl
  rw [MemoryCache.get, find?_of_mem hd he]
  exact congrArg Prod.fst (if_pos hlive)

lemma Live.erase (hl : m.Live k v) (hne : k ≠ key) : (m.erase key).Live k v := by
  obtain ⟨e, he, rfl, rfl, hlive⟩ := hl
  exact ⟨e, List.mem_filter.mpr ⟨he, by simpa using hne⟩, rfl, rfl, hlive⟩

lemma Live.get (hl : m.Live k v) (hd : m.Distinct) (key : String) : (m.get key).2.Live k v := by
  rw [MemoryCache.get]
  split
  · exact hl
  · rename_i x hx
    split
    · exact hl
    · rename_i hover
      have hne : k ≠ key := by
        rintro rfl
        obtain ⟨e, he, rfl, rfl, hlive⟩ := hl
        rw [find?_of_mem hd he] at hx
        exact hover (Option.some.inj hx ▸ hlive)
      exact hl.erase hne

lemma capacity_get (m : MemoryCache) (key : String) : (m.get key).2.capacity = m.capacity := by
  rw [MemoryCache.get]
  split
  · rfl
  · split <;> rfl

end MemoryCache

namespace WatchedCache

structure Roomy (w : WatchedCache MemoryCache) (n : Nat) : Prop where
  distinct : w.service.Distinct
  room : w.service.size + n ≤ w.service.capacity
  held : ∀ k v, w.given.lookup k = some v → w.service.Live k v
  intact : w.lost = false

variable {w : WatchedCache MemoryCache} {n : Nat}

lemma Roomy.set (h : w.Roomy (n + 1)) (key value : String) {ttl : Duration} (ht : 0 < ttl.nanos) :
    ∃ w', CacheService.set w key value ttl = (.ok (), w') ∧ w'.Roomy n := by
  have hroom := h.room
  have hspare : w.service.size < w.service.capacity := by omega
  refine ⟨_, rfl, h.distinct.set ttl, ?_, fun k v hk => ?_, ?_⟩
  · have hlength := MemoryCache.length_put_le ⟨key, value, w.service.clock + ttl.nanos⟩
      w.service.entries
    have hentries := (w.service.set_eq key value ttl).1
    rw [MemoryCache.roomy_of_spare hspare] at hentries
    have hcapacity : (w.service.set key value ttl).capacity = w.service.capacity :=
      (w.service.roomy_counts key).1
    show (w.service.set key value ttl).size + n ≤ (w.service.set key value ttl).capacity
    simp only [MemoryCache.size, hentries, hcapacity] at hroom ⊢
    omega
  · rw [List.lookup_cons] at hk
    split at hk
    · rename_i he
      obtain rfl := Option.some.inj hk
      rw [beq_iff_eq.mp he]
      exact MemoryCache.live_set ht
    · rename_i hne
      exact (h.held k v hk).set hspare (by simpa using hne)
  · exact Bool.or_eq_false_iff.mpr ⟨h.intact, rfl⟩

lemma Roomy.get (h : w.Roomy n) (key : String) : (CacheService.get w key).2.Roomy n := by
  have hs := (w.service.get_spec key).2.1
  refine ⟨h.distinct.sublist hs, ?_, fun k v hk => (h.held k v hk).get h.distinct key, ?_⟩
  · show (w.service.get key).2.size + n ≤ (w.service.get key).2.capacity
    rw [MemoryCache.capacity_get]
    exact Nat.le_trans (Nat.add_le_add_right hs.length_le n) h.room
  · refine Bool.or_eq_false_iff.mpr ⟨h.intact, ?_⟩
    cases hgiven : w.given.lookup key with
    | none => rfl
    | some text =>
      have hfound : (CacheService.get w.service key).1 = .ok (some text) :=
        congrArg Except.ok ((h.held key text hgiven).found h.distinct)
      simp [hfound, Except.toOption]

lemma lookup_of_filter {given : List (String × String)} {key k v : String}
    (h : (given.filter (·.1 != key)).lookup k = some v) : k ≠ key ∧ given.lookup k = some v := by
  induction given with
  | nil => cases h
  | cons entry given ih =>
    rw [List.filter_cons] at h
    split at h
    · rename_i hne
      rw [List.lookup_cons] at h ⊢
      split at h
      · rename_i he
        exact ⟨beq_iff_eq.mp he ▸ bne_iff_ne.mp hne, h⟩
      · exact ih h
    · rename_i hkey
      obtain ⟨hne, h⟩ := ih h
      have hkey : entry.1 = key := by simpa using hkey
      rw [List.lookup_cons, beq_false_of_ne (hkey ▸ hne)]
      exact ⟨hne, h⟩

lemma Roomy.delete (h : w.Roomy n) (key : String) : (CacheService.delete w key).2.Roomy n := by
  have hs := w.service.sublist_erase key
  refine ⟨h.distinct.sublist hs, ?_, fun k v hk => ?_, h.intact⟩
  · exact Nat.le_trans (Nat.add_le_add_right hs.length_le n) h.room
  · obtain ⟨hne, hk⟩ := lookup_of_filter hk
    exact (h.held k v hk).erase hne

lemma Roomy.of_leads {w' : WatchedCache MemoryCache} (h : w.Roomy n)
    (hl : CacheUse.Leads (fun _ _ => False) w w') : w'.Roomy n := by
  obtain ⟨uses, rfl, hw⟩ := hl
  induction uses generalizing w with
  | nil => exact h
  | cons use uses ih =>
    obtain ⟨huse, hw⟩ := List.forall_mem_cons.mp hw
    refine ih ?_ hw
    cases use with
    | get key => exact h.get key
    | set => cases huse
    | delete key => exact h.delete key
    | keys => exact ⟨h.distinct, h.room, h.held, h.intact⟩

end WatchedCache

namespace EvaluationCache

open CacheKey (marker)

variable {w : WatchedCache MemoryCache} {key : String} {ttl : Duration} {n : Nat}
  {roles : List String}

lemma roomy_writeMarkers (h : w.Roomy (roles.length + n)) (key : String) (ht : 0 < ttl.nanos) :
    ∃ w', writeMarkers w key ttl roles = (true, w') ∧ w'.Roomy n := by
  induction roles generalizing w with
  | nil => exact ⟨w, rfl, by simpa using h⟩
  | cons role roles ih =>
    rw [List.length_cons, Nat.add_right_comm] at h
    obtain ⟨w₁, hset, h₁⟩ := h.set (marker role key) "" ht
    obtain ⟨w₂, hrest, h₂⟩ := ih h₁
    exact ⟨w₂, by simp only [writeMarkers, hset, hrest], h₂⟩

lemma roomy_write (h : w.Roomy ((Text.sortedDistinct roles).length + 1)) (key text : String)
    (ht : 0 < ttl.nanos) :
    (write w key text ttl roles).Roomy 0 := by
  obtain ⟨w₁, hmarkers, h₁⟩ := roomy_writeMarkers h key ht
  obtain ⟨w₂, hset, h₂⟩ := h₁.set key text ht
  simpa only [write, hmarkers, hset] using h₂

lemma lost_getDecision {m : MemoryCache} {d : Decision} (hm : m.Distinct) (ht : 0 < ttl.nanos)
    (hroom : m.size + ((Text.sortedDistinct d.roleIds).length + 1) ≤ m.capacity) (key : String)
    (now : Instant) :
    (getDecision ((putDecision ttl (WatchedCache.ofService m) key d).become
      (putDecision ttl m key d)) key now).2.lost = false := by
  have hstart : ∀ n, m.size + n ≤ m.capacity → (WatchedCache.ofService m).Roomy n := fun n hn =>
    ⟨hm, hn, fun _ _ hk => absurd hk (by simp [WatchedCache.ofService]), rfl⟩
  rw [putDecision, putDecision]
  split
  · rename_i left hleft
    have hpositive : 0 < left.nanos := Lifetimes.bounded_pos ht hleft
    have hwrite := service_write (WatchedCache.ofService m) key d.json.written left d.roleIds
    have hroomy := roomy_write (hstart _ hroom) key d.json.written hpositive
    have hsame : (write (WatchedCache.ofService m) key d.json.written left d.roleIds).become
        (write m key d.json.written left d.roleIds) =
          write (WatchedCache.ofService m) key d.json.written left d.roleIds :=
      congrArg (WatchedCache.become _) hwrite.symm
    rw [hsame]
    exact (hroomy.of_leads (.fetch _ _ _ _ _)).intact
  · exact ((hstart 0 (by omega)).of_leads (.fetch _ _ _ _ _)).intact

end EvaluationCache

/-! Time left to a decision. -/

namespace Instant

structure Held (t : Instant) : Prop where
  nanos : t.nanos < 2 * Duration.perSecond
  inRange : t.InRange

/-- The one instant lies in the leap second at the end of a day, the other in the second after it
and no further into it. No time counts from the one to the other. -/
@[mk_iff]
structure Swallows (t b : Instant) : Prop where
  last : t.secondOfDay = 86399
  next : b.seconds = t.seconds + 1
  within : b.nanos % Duration.perSecond + Duration.perSecond ≤ t.nanos

lemma since_pos_iff {t b : Instant} (ht : t.Held) (hb : b.Held) (h : t < b) :
    0 < b.since t ↔ ¬ t.Swallows b := by
  have htn := ht.nanos
  have hbn := hb.nanos
  rw [swallows_iff, since]
  simp only [lt_def, secondOfDay, Duration.perSecond] at *
  split_ifs <;> omega

end Instant

namespace Decision

structure Held (d : Decision) : Prop where
  evaluatedAt : d.evaluatedAt.Held
  validUntil : ∀ b, d.validUntil = some b → b.Held
  duration : d.duration.seconds < Word.bound

structure Regular (d : Decision) : Prop where
  evaluatedAt : d.evaluatedAt.Regular
  validUntil : RegularBound d.validUntil

def Swallowed (d : Decision) : Prop :=
  ∃ b, d.validUntil = some b ∧ d.evaluatedAt.Swallows b

lemma Held.proper_iff {d : Decision} (h : d.Held) : d.Proper ↔ d.Regular :=
  ⟨fun hd => ⟨hd.evaluatedAt.regular, fun b hb => (hd.validUntil b hb).regular⟩, fun hd =>
    ⟨⟨hd.evaluatedAt, h.evaluatedAt.inRange⟩, fun b hb =>
      ⟨hd.validUntil b hb, (h.validUntil b hb).inRange⟩⟩⟩

end Decision

lemma Lifetimes.bounded_eq_none_iff (ttl : Duration) {d : Decision} (hd : d.Held)
    (h : ∀ b, d.validUntil = some b → d.evaluatedAt < b) :
    bounded ttl d.validUntil d.evaluatedAt = none ↔ d.Swallowed := by
  cases hb : d.validUntil with
  | none => simp [bounded, Decision.Swallowed, hb]
  | some b =>
    have hpos := Instant.since_pos_iff hd.evaluatedAt (hd.validUntil b hb) (h b hb)
    simp only [bounded, Decision.Swallowed, hb]
    split
    · rename_i hleft
      simpa using hpos.mp hleft
    · rename_i hleft
      simpa using not_not.mp (mt hpos.mpr hleft)

namespace EvaluationCache

/-- Whatever the service comes to be between the put and the get: as long as it loses nothing of
what it was given, a decision that no leap second swallows is found as it was, in every field, if
and only if its leap seconds end minutes. One that is swallowed is not written at all. -/
theorem getDecision_putDecision_iff {σ : Type} [CacheService σ] (c later : σ) (ttl : Duration)
    (key : String) (d : Decision) (now : Instant) (hd : d.Held)
    (hahead : ∀ b, d.validUntil = some b → d.evaluatedAt < b ∧ now < b)
    (hkept : (getDecision ((putDecision ttl (WatchedCache.ofService c) key d).become later)
      key now).2.lost = false) :
    (d.Swallowed → putDecision ttl c key d = c) ∧
      (¬ d.Swallowed → ((getDecision later key now).1 = some d ↔ d.Regular)) := by
  have hnone := Lifetimes.bounded_eq_none_iff ttl hd fun b hb => (hahead b hb).1
  constructor
  · intro hs
    rw [putDecision, hnone.mpr hs]
  · intro hs
    obtain ⟨left, hleft⟩ := Option.ne_none_iff_exists'.mp (mt hnone.mp hs)
    simp only [putDecision, hleft] at hkept
    have hdecode : keptDecision.decode = Decision.ofText? := rfl
    have hfetch := fetch_write_iff c later hkept fun b hb => (hahead b hb).2
    rw [hdecode, Decision.ofText?_written_iff hd.duration, hd.proper_iff] at hfetch
    exact hfetch

def leapDecision (nanos : Nat) : Decision :=
  { Decision.plain "1" true "" ⟨none, none, ⟨1483228799, 1500000000⟩⟩ with
    roles := [⟨"editor", "Editor", ["direct"], false⟩]
    validUntil := some ⟨1483228800, nanos⟩ }

lemma held_leapDecision {nanos : Nat} (h : nanos < Duration.perSecond) :
    (leapDecision nanos).Held := by
  have hrange : (⟨1483228799, 1500000000⟩ : Instant).InRange := by decide
  have hrange' : (⟨1483228800, 0⟩ : Instant).InRange := by decide
  have hduration : Duration.zero.seconds < Word.bound := by decide
  refine ⟨⟨(by decide : 1500000000 < 2 * Duration.perSecond), hrange⟩, ?_, hduration⟩
  rintro b ⟨⟩
  exact ⟨Nat.lt_trans h (by decide), hrange'⟩

theorem getDecision_putDecision_leap :
    let c := MemoryCache.ofCapacity 8
    (getDecision (putDecision (.ofSeconds 60) c "decision:ada" (leapDecision 700000000))
        "decision:ada" ⟨1483228799, 1600000000⟩).1 = some (leapDecision 700000000) ∧
      putDecision (.ofSeconds 60) c "decision:ada" (leapDecision 200000000) = c := by
  intro c
  have hahead : ∀ nanos b, (leapDecision nanos).validUntil = some b →
      (leapDecision nanos).evaluatedAt < b ∧ (⟨1483228799, 1600000000⟩ : Instant) < b := by
    rintro nanos b ⟨⟩
    exact ⟨Or.inl (by decide : (1483228799 : Int) < 1483228800),
      Or.inl (by decide : (1483228799 : Int) < 1483228800)⟩
  have hroom : ∀ nanos, c.size + ((Text.sortedDistinct (leapDecision nanos).roleIds).length + 1) ≤
      c.capacity := fun nanos => (by decide : 0 + (1 + 1) ≤ 8)
  have hkept : ∀ nanos, (getDecision ((putDecision (.ofSeconds 60) (WatchedCache.ofService c)
      "decision:ada" (leapDecision nanos)).become (putDecision (.ofSeconds 60) c "decision:ada"
        (leapDecision nanos))) "decision:ada" ⟨1483228799, 1600000000⟩).2.lost = false :=
    fun nanos => lost_getDecision (m := c) List.nodup_nil (by decide) (hroom nanos) _ _
  constructor
  · refine ((getDecision_putDecision_iff c _ _ _ _ _ (held_leapDecision (by decide)) (hahead _)
      (hkept _)).2 ?_).mpr ⟨⟨by decide, fun _ => by decide⟩, ?_⟩
    · rintro ⟨b, ⟨⟩, hs⟩
      exact absurd hs.within (by decide)
    · rintro b ⟨⟩
      exact ⟨by decide, fun h => absurd h (by decide)⟩
  · exact (getDecision_putDecision_iff c _ _ _ _ _ (held_leapDecision (by decide)) (hahead _)
      (hkept _)).1 ⟨_, rfl, by decide, by decide, by decide⟩

end EvaluationCache

end AccessControl
