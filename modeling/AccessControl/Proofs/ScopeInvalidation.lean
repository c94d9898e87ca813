import AccessControl.Proofs.RoleInvalidation
import AccessControl.Proofs.SteadyCaches

/-! Once a principal or a group was invalidated, nothing that was kept for it is served, as long as
the rest of the key has no line feed. A star stands for no line feed, so that a key with one there is
not found and its value is served on. -/

namespace AccessControl

open CacheKey (Unbroken absent contextParts)

namespace CacheKey

def breaks (text : String) : Nat := text.toList.count '\n'

variable {principal group : String} {r : AccessRequest} {ctx : Context}

lemma breaks_of_globMatches {pattern key : String} (h : globMatches pattern key = true) :
    breaks key = breaks pattern :=
  (fits_of_globMatches h).count_eq

lemma unbroken_iff {parts : List String} : Unbroken parts ↔ ∀ part ∈ parts, breaks part = 0 := by
  simp only [Unbroken, breaks, List.count_eq_zero]

lemma breaks_roles : breaks (roles principal ctx) = breaks principal +
    (breaks (ctx.organization.getD absent) + breaks (ctx.group.getD absent)) := by
  simp [breaks, toList_roles]

lemma breaks_decision : breaks (decision r ctx) = breaks r.principal +
    (breaks (ctx.organization.getD absent) + (breaks (ctx.group.getD absent) +
      (breaks r.type + (breaks r.resource + breaks r.action)))) := by
  simp [breaks, toList_decision]

lemma breaks_principal_patterns (principal : String) : breaks (decisionsOf principal) = breaks principal ∧
    breaks (rolesOf principal) = breaks principal := by
  simp [breaks, decisionsOf, rolesOf]

lemma breaks_group_patterns (group : String) : breaks (rolesWithin group) = breaks group ∧
    breaks (decisionsWithin group) = breaks group := by
  simp [breaks, rolesWithin, decisionsWithin]

lemma breaks_roles_of_principal :
    breaks (roles principal ctx) = breaks principal ↔ Unbroken (contextParts ctx) := by
  simp [breaks_roles, unbroken_iff, contextParts]

lemma breaks_decision_of_principal : breaks (decision r ctx) = breaks r.principal ↔
    Unbroken (contextParts ctx ++ [r.type, r.resource, r.action]) := by
  simp [breaks_decision, unbroken_iff, contextParts]

lemma breaks_roles_of_group (hg : ctx.group = some group) :
    breaks (roles principal ctx) = breaks group ↔
      Unbroken [principal, ctx.organization.getD absent] := by
  simp [breaks_roles, unbroken_iff, hg]
  omega

lemma breaks_decision_of_group (hg : ctx.group = some group) :
    breaks (decision r ctx) = breaks group ↔
      Unbroken [r.principal, ctx.organization.getD absent, r.type, r.resource, r.action] := by
  simp [breaks_decision, unbroken_iff, hg]
  omega

end CacheKey

namespace UnsteadyCache

structure Alone (c : UnsteadyCache) (key text : String) : Prop where
  calm : c.mishaps = calm
  entry : ∃ until_, c.memory.entries = [⟨key, text, until_⟩] ∧ c.memory.clock < until_

variable {c : UnsteadyCache} {key text pattern : String}

lemma alone_write (capacity : Nat) (key text : String) {ttl : Duration} (h : 0 < ttl.nanos) :
    (EvaluationCache.write (ofCapacity capacity calm) key text ttl []).Alone key text := by
  have hset : (EvaluationCache.write (ofCapacity capacity calm) key text ttl []).memory =
      (ofCapacity capacity calm).suffered.set key text ttl := rfl
  have hempty : (ofCapacity capacity calm).suffered = MemoryCache.ofCapacity capacity :=
    suffered_of_calm rfl
  have hroom : ¬ max capacity 1 ≤ 0 := by omega
  refine ⟨rfl, ttl.nanos, ?_⟩
  rw [hset, hempty]
  simpa [MemoryCache.set, MemoryCache.ofCapacity, MemoryCache.find?, MemoryCache.size,
    MemoryCache.put, hroom] using h

lemma Alone.removeMatching (h : c.Alone key text) (hm : globMatches pattern key = false) :
    (EvaluationCache.removeMatching c pattern).2.Alone key text := by
  obtain ⟨hcalm, until_, hentries, hlive⟩ := h
  have hkeys : c.suffered.keys pattern = [] := by
    simp [MemoryCache.keys, suffered_of_calm hcalm, hentries, hm]
  have he : (EvaluationCache.removeMatching c pattern).2 = c.next c.suffered c.distinct_suffered := by
    simp [EvaluationCache.removeMatching, EvaluationCache.list, CacheService.keys, hkeys]
  rw [he]
  exact ⟨hcalm, until_, by simpa [next, suffered_of_calm hcalm] using ⟨hentries, hlive⟩⟩

lemma Alone.fetch {α : Type} {kept : EvaluationCache.Kept α} {value : α} (h : c.Alone key text)
    (hd : kept.decode text = some value) (hroles : kept.roles value = [])
    (hbound : kept.validUntil value = none) (now : Instant) :
    (EvaluationCache.fetch kept c key now).1 = some value := by
  obtain ⟨hcalm, until_, hentries, hlive⟩ := h
  have hget : (c.suffered.get key).1 = some text := by
    simp [MemoryCache.get, suffered_of_calm hcalm, MemoryCache.find?, hentries,
      MemoryCache.isLive, hlive]
  have hread : (EvaluationCache.read c key).1 = some text := by
    simp [EvaluationCache.read, CacheService.get, hget]
  refine EvaluationCache.fetch_of_held (by simp [hread]) (fun text' h' => ?_) hbound ?_ now
  · obtain ⟨e, he, -, rfl, -⟩ := h'
    rw [hentries, List.mem_singleton] at he
    rw [he]
    exact hd
  · rw [hroles]
    rfl

end UnsteadyCache

section scope

open UnsteadyCache (Alone calm alone_write)
open EvaluationCache (Kept fetch getRoles getDecision invalidatePrincipal invalidateGroup removeAll
  removeMatching keptRoles keptDecision)

/-- What a cache may come to be: values are put, read and dropped while entries are lost and time
passes. -/
def Stocked (l : Lifetimes) (c : UnsteadyCache) : Prop :=
  ∃ capacity mishaps ops, c = CacheOperation.run l (.ofCapacity capacity mishaps) ops

variable {α : Type} {kept : Kept α} {key text pattern pattern' : String}

lemma fetch_of_removed (kept : Kept α) (c : UnsteadyCache) (now : Instant)
    (h : globMatches pattern key = true ∨ globMatches pattern' key = true) :
    (fetch kept (removeAll c [pattern, pattern']).2 key now).1 = none := by
  rw [Option.eq_none_iff_forall_ne_some]
  intro value hv
  obtain ⟨⟨text, ht, -⟩, -⟩ := ((EvaluationCache.fetch_spec kept _ key now).2 value hv).1
  exact (EvaluationCache.removeAll_two c pattern pattern').2 key h text ht

lemma removeAll_pair (c : UnsteadyCache) (pattern pattern' : String) :
    (removeAll c [pattern, pattern']).2 =
      (removeMatching (removeMatching c pattern).2 pattern').2 := rfl

def Plainly (kept : Kept α) (text : String) : Prop :=
  ∃ value, kept.decode text = some value ∧ kept.roles value = [] ∧ kept.validUntil value = none

lemma fetch_of_spared {ttl : Duration} (capacity : Nat) (now : Instant) (ht : 0 < ttl.nanos)
    (hp : Plainly kept text) (h : globMatches pattern key = false)
    (h' : globMatches pattern' key = false) :
    (fetch kept (removeAll (EvaluationCache.write (UnsteadyCache.ofCapacity capacity calm) key text
      ttl []) [pattern, pattern']).2 key now).1 ≠ none := by
  obtain ⟨value, hd, hroles, hbound⟩ := hp
  have halone := (alone_write capacity key text ht).removeMatching h
  rw [removeAll_pair, (halone.removeMatching h').fetch hd hroles hbound now]
  exact Option.some_ne_none value

lemma removed_iff (op : CacheOperation) (ttl : Duration) (now : Instant)
    (hop : op.act .default (UnsteadyCache.ofCapacity 1 calm) =
      EvaluationCache.write (UnsteadyCache.ofCapacity 1 calm) key text ttl [])
    (ht : 0 < ttl.nanos) (hp : Plainly kept text) {n : Nat} (hn : CacheKey.breaks pattern = n)
    (hn' : CacheKey.breaks pattern' = n) {unbroken : Prop}
    (hkey : CacheKey.breaks key = n ↔ unbroken)
    (hfound : unbroken → globMatches pattern key = true ∨ globMatches pattern' key = true) :
    (∀ l c, Stocked l c → (fetch kept (removeAll c [pattern, pattern']).2 key now).1 = none) ↔
      unbroken := by
  constructor
  · intro hall
    by_contra hbroken
    have hspared : ∀ p, CacheKey.breaks p = n → globMatches p key = false := by
      intro p hpn
      rw [← Bool.not_eq_true]
      intro hm
      exact hbroken (hkey.mp ((CacheKey.breaks_of_globMatches hm).trans hpn))
    have hgone := hall .default _ ⟨1, calm, [op], rfl⟩
    rw [show CacheOperation.run .default (UnsteadyCache.ofCapacity 1 calm) [op] =
      op.act .default (UnsteadyCache.ofCapacity 1 calm) from rfl, hop] at hgone
    exact fetch_of_spared 1 now ht hp (hspared _ hn) (hspared _ hn') hgone
  · intro hunbroken l c _
    exact fetch_of_removed kept c now (hfound hunbroken)

def noRoles : EffectiveRoles := ⟨[], [], false, none⟩

def noReason : Decision := .plain "" true "" ⟨none, none, ⟨0, 0⟩⟩

lemma plainly_noRoles : Plainly keptRoles noRoles.json.written := by
  have hdecode : keptRoles.decode = EffectiveRoles.ofText? := rfl
  have hany : (EffectiveRoles.ofText? noRoles.json.written).any (fun v =>
      v.names.isEmpty && v.validUntil.isNone) = true := by
    rw [EffectiveRoles.ofText?, Document.ofText?, Document.scan?, Json.written, String.toList_ofList]
    decide +kernel
  obtain ⟨v, hv, hspec⟩ := (Option.any_eq_true _ _).mp hany
  simp only [Bool.and_eq_true, List.isEmpty_iff, Option.isNone_iff_eq_none] at hspec
  exact ⟨v, by rw [hdecode, hv], hspec⟩

lemma plainly_noReason : Plainly keptDecision noReason.json.written := by
  have hdecode : keptDecision.decode = Decision.ofText? := rfl
  have hany : (Decision.ofText? noReason.json.written).any (fun v =>
      v.roleIds.isEmpty && v.validUntil.isNone) = true := by
    rw [Decision.ofText?, Document.ofText?, Document.scan?, Json.written, String.toList_ofList]
    decide +kernel
  obtain ⟨v, hv, hspec⟩ := (Option.any_eq_true _ _).mp hany
  simp only [Bool.and_eq_true, List.isEmpty_iff, Option.isNone_iff_eq_none] at hspec
  exact ⟨v, by rw [hdecode, hv], hspec⟩

lemma roles_removed_iff {principal : String} {ctx : Context} {n : Nat} {unbroken : Prop}
    (hn : CacheKey.breaks pattern = n) (hn' : CacheKey.breaks pattern' = n)
    (hkey : CacheKey.breaks (CacheKey.roles principal ctx) = n ↔ unbroken)
    (hfound : unbroken → globMatches pattern (CacheKey.roles principal ctx) = true ∨
      globMatches pattern' (CacheKey.roles principal ctx) = true) :
    (∀ l c, Stocked l c →
      (getRoles (removeAll c [pattern, pattern']).2 principal ctx).1 = none) ↔ unbroken :=
  removed_iff (.putRoles principal ctx noRoles) Lifetimes.default.roles ctx.now rfl (by decide)
    plainly_noRoles hn hn' hkey hfound

lemma decision_removed_iff {now : Instant} {n : Nat} {unbroken : Prop}
    (hn : CacheKey.breaks pattern = n) (hn' : CacheKey.breaks pattern' = n)
    (hkey : CacheKey.breaks key = n ↔ unbroken)
    (hfound : unbroken → globMatches pattern key = true ∨ globMatches pattern' key = true) :
    (∀ l c, Stocked l c →
      (getDecision (removeAll c [pattern, pattern']).2 key now).1 = none) ↔ unbroken :=
  removed_iff (.putDecision key noReason) Lifetimes.default.decisions now rfl (by decide)
    plainly_noReason hn hn' hkey hfound

/-- After the invalidation of a principal or of a group none of what was kept for it is served,
whatever was put before, exactly if the other parts of the key have no line feed. -/
theorem dropped_iff_unbroken (r : AccessRequest) (ctx : Context) (group : String) (now : Instant) :
    let within : Context := { ctx with group := some group }
    ((∀ l c, Stocked l c →
        (getRoles (invalidatePrincipal c r.principal).2 r.principal ctx).1 = none) ↔
      Unbroken (contextParts ctx)) ∧
    ((∀ l c, Stocked l c →
        (getDecision (invalidatePrincipal c r.principal).2 (CacheKey.decision r ctx) now).1 = none) ↔
      Unbroken (contextParts ctx ++ [r.type, r.resource, r.action])) ∧
    ((∀ l c, Stocked l c →
        (getRoles (invalidateGroup c group).2 r.principal within).1 = none) ↔
      Unbroken [r.principal, ctx.organization.getD absent]) ∧
    ((∀ l c, Stocked l c →
        (getDecision (invalidateGroup c group).2 (CacheKey.decision r within) now).1 = none) ↔
      Unbroken [r.principal, ctx.organization.getD absent, r.type, r.resource, r.action]) := by
  intro within
  have hg : within.group = some group := rfl
  obtain ⟨hdecisions, hroles⟩ := CacheKey.breaks_principal_patterns r.principal
  obtain ⟨hroles', hdecisions'⟩ := CacheKey.breaks_group_patterns group
  refine ⟨?_, ?_, ?_, ?_⟩
  · exact roles_removed_iff hdecisions hroles CacheKey.breaks_roles_of_principal
      fun h => Or.inr (CacheKey.matches_rolesOf h)
  · exact decision_removed_iff hdecisions hroles CacheKey.breaks_decision_of_principal
      fun h => Or.inl (CacheKey.matches_decisionsOf h)
  · exact roles_removed_iff hroles' hdecisions' (CacheKey.breaks_roles_of_group hg)
      fun h => Or.inl (CacheKey.matches_rolesWithin hg h)
  · exact decision_removed_iff hroles' hdecisions' (CacheKey.breaks_decision_of_group hg)
      fun h => Or.inr (CacheKey.matches_decisionsWithin hg h)

end scope

end AccessControl
