import AccessControl.CommandLine.Run
import AccessControl.Proofs.KeySeparation
import AccessControl.Proofs.Restriction
import AccessControl.Proofs.Upkeep
import Mathlib.Data.Finset.Card

/-! The answers to many checks are filed under their keys, so each check is answered as it is when it
is asked alone exactly if no other check of the batch has its key. Keys join their parts with a colon
that nothing escapes: a check has its key for itself exactly if no part of it holds a colon. -/

namespace AccessControl

namespace ResourceCheck

open CacheKey (Plain segments)

lemma key_eq_segments (c : ResourceCheck) : c.key = segments [c.type, c.resource, c.action] := by
  simp [key, segments, String.append_assoc]

theorem key_unique_iff {c : ResourceCheck} :
    (∀ c' : ResourceCheck, c'.key = c.key → c' = c) ↔
      ∀ part ∈ [c.type, c.resource, c.action], Plain part := by
  constructor
  · intro h
    by_contra hp
    obtain ⟨ys, hl, hs, hne⟩ := CacheKey.exists_same_segments (by simp) hp
    match ys, hl with
    | [type, resource, action], _ =>
      obtain rfl := h ⟨type, resource, action⟩ (by rw [key_eq_segments, key_eq_segments, hs])
      exact hne rfl
  · intro hp c' hk
    rw [key_eq_segments, key_eq_segments, CacheKey.segments_eq_iff hp (by rfl)] at hk
    cases c
    cases c'
    simpa using hk

lemma resource_eq_of_key {type action resource resource' : String}
    (h : key ⟨type, resource', action⟩ = key ⟨type, resource, action⟩) : resource' = resource := by
  simpa [key, String.append_assoc] using h

lemma action_eq_of_key {type resource action action' : String}
    (h : key ⟨type, resource, action'⟩ = key ⟨type, resource, action⟩) : action' = action :=
  (String.append_right_inj _).mp h

def Separate (checks : List ResourceCheck) : Prop :=
  ∀ c ∈ checks, ∀ c' ∈ checks, c'.key = c.key → c' = c

/-- No complete check of the principal shares its key with another one. -/
def SeparateFor (principal : String) (checks : List ResourceCheck) : Prop :=
  ∀ c ∈ checks, ∀ c' ∈ checks, (c.forPrincipal principal).missingField = none →
    c'.key = c.key → c' = c

lemma separate_of_actions (type resource : String) (actions : List String) :
    Separate (actions.map fun action => ⟨type, resource, action⟩) := by
  intro c hc c' hc' hk
  obtain ⟨action, -, rfl⟩ := List.mem_map.mp hc
  obtain ⟨action', -, rfl⟩ := List.mem_map.mp hc'
  rw [action_eq_of_key hk]

lemma Separate.separateFor {checks : List ResourceCheck} (h : Separate checks)
    (principal : String) : SeparateFor principal checks :=
  fun c hc c' hc' _ => h c hc c' hc'

end ResourceCheck

namespace Engine

variable {σ : Type} {e : Engine σ} {principal : String} {ctx : Context}
  {checks : List ResourceCheck}

lemma Grants.congr {e' : Engine σ} {request : AccessRequest} (h : e.SameBase e') :
    e'.Grants request ctx ↔ e.Grants request ctx := by
  rw [Grants, Grants, h.store, h.models, h.maxDepth]

structure Files (e₀ : Engine σ) (principal : String) (ctx : Context) (done : List ResourceCheck)
    (acc : BulkDecision × Engine σ) : Prop where
  base : e₀.SameBase acc.2
  uncached : acc.2.cache = none
  keys : ∀ key, (acc.1.results.get? key).isSome = true ↔ key ∈ done.map (·.key)
  answers : ∀ key f, acc.1.results.get? key = some f → ∃ c ∈ done, c.key = key ∧
    (f.decision.allowed = true ↔ e₀.Grants (c.forPrincipal principal) ctx)

lemma Files.allowed_iff {acc : BulkDecision × Engine σ} (h : e.Files principal ctx checks acc)
    {c : ResourceCheck} (hc : c ∈ checks) : ∃ c' ∈ checks, c'.key = c.key ∧
      (acc.1.allowed c = true ↔ e.Grants (c'.forPrincipal principal) ctx) := by
  obtain ⟨f, hf⟩ := Option.isSome_iff_exists.mp ((h.keys c.key).mpr (List.mem_map_of_mem hc))
  obtain ⟨c', hc', hk, hallowed⟩ := h.answers c.key f hf
  refine ⟨c', hc', hk, ?_⟩
  rw [BulkDecision.allowed, hf]
  exact hallowed

def permitting (principal : String) (c : ResourceCheck) : Engine σ where
  config := .standard
  models := [.named, .direct]
  store :=
    { Store.empty with
      roles := .ofList [.global "reader" "Reader"]
      userRoles := [.direct "u" principal "reader"]
      resourcePermissions := [⟨"p", "reader", c.type, c.resource, c.action, true⟩] }
  cache := none
  audit := none
  metrics := none
  ids := ⟨0⟩
  elapsed := .zero

lemma grants_permitting {c : ResourceCheck} (hm : (c.forPrincipal principal).missingField = none)
    (ctx : Context) :
    (permitting (σ := σ) principal c).Grants (c.forPrincipal principal) ctx := by
  have hreader : "reader" ∈ ((permitting (σ := σ) principal c).store.effectiveRoles
      (permitting (σ := σ) principal c).maxDepth principal ctx).ids := by
    refine Store.mem_ids.mpr ⟨"reader", ?_, 0, Nat.zero_le _, ?_⟩
    · have hrow : UserRole.direct "u" principal "reader" ∈
          (permitting (σ := σ) principal c).store.userRoles := List.mem_cons_self
      exact .assigned hrow ⟨rfl, rfl, by rintro g ⟨⟩⟩
    · have hrole : (permitting (σ := σ) principal c).store.role? "reader" =
          some (.global "reader" "Reader") := rfl
      refine .here ⟨hrole, rfl, ?_⟩
      cases ctx.organization <;> rfl
  refine ⟨hm, (Store.allows_iff rfl).mpr ⟨⟨"reader", EffectiveRoles.mem_names.mpr (Or.inl hreader)⟩,
    Or.inl ⟨"reader", hreader, .direct, by simp [permitting], ?_⟩⟩⟩
  exact ⟨_, List.mem_cons_self, rfl, rfl, rfl, rfl, Or.inr (Or.inr rfl)⟩

lemma eq_of_permitting {c c' : ResourceCheck} (hk : c'.key = c.key)
    (h : (permitting (σ := σ) principal c).Grants (c'.forPrincipal principal) ctx) : c' = c := by
  obtain ⟨-, ⟨role, -, model, -, hcarries⟩ | ⟨g, hg, -⟩⟩ := (Store.allows_iff rfl).mp h.2
  · cases model with
    | named =>
      obtain ⟨l, hl, -⟩ := hcarries
      exact absurd hl List.not_mem_nil
    | direct =>
      obtain ⟨p, hp, -, -, htype, haction, -⟩ := hcarries
      obtain rfl := List.mem_singleton.mp hp
      obtain ⟨type, resource, action⟩ := c
      obtain ⟨type', resource', action'⟩ := c'
      obtain ⟨rfl, rfl⟩ : type = type' ∧ action = action' := ⟨htype, haction⟩
      rw [ResourceCheck.resource_eq_of_key hk]
  · obtain ⟨b, hb, -⟩ := Store.mem_conditional.mp hg
    exact absurd (List.mem_filter.mp hb).1 List.not_mem_nil

variable [CacheService σ]

lemma evaluate_leaves (hc : e.cache = none) (ha : e.store.available = true)
    (request : AccessRequest) (ctx : Context) :
    e.SameBase (e.evaluate request ctx).2 ∧ (e.evaluate request ctx).2.cache = none := by
  cases hm : request.missingField with
  | some field =>
    rw [evaluate_of_missing hm]
    exact ⟨⟨rfl, rfl, rfl⟩, hc⟩
  | none =>
    obtain ⟨d, hdecide, -⟩ := decide_alone hc ha request ctx
    rw [evaluate_of_miss hm (cachedDecision_uncached hc _ _) hdecide]
    refine ⟨⟨rfl, rfl, rfl⟩, ?_⟩
    change e.cache.map _ = none
    rw [hc, Option.map_none]

lemma Files.next {done : List ResourceCheck} {acc : BulkDecision × Engine σ}
    (h : e.Files principal ctx done acc) (ha : e.store.available = true) (c : ResourceCheck) :
    e.Files principal ctx (done ++ [c]) (evaluateInto principal ctx acc c) := by
  have ha' : acc.2.store.available = true := h.base.store ▸ ha
  obtain ⟨d, hd, hallowed⟩ := evaluate_grants h.uncached ha' (c.forPrincipal principal) ctx
  obtain ⟨hb, hc⟩ := evaluate_leaves h.uncached ha' (c.forPrincipal principal) ctx
  have hinto : evaluateInto principal ctx acc c =
      (acc.1.file c d, (acc.2.evaluate (c.forPrincipal principal) ctx).2) := by
    unfold evaluateInto
    split
    · rename_i d' e' he
      rw [he] at hd
      obtain rfl := Except.ok.inj hd
      rw [he]
    · rename_i he
      rw [he] at hd
      cases hd
  have hget : ∀ key, (evaluateInto principal ctx acc c).1.results.get? key =
      if c.key = key then some ⟨c.key, d⟩ else acc.1.results.get? key := by
    intro key
    rw [hinto]
    exact Table.get?_insert acc.1.results ⟨c.key, d⟩ key
  constructor
  case base =>
    rw [hinto]
    exact h.base.trans hb
  case uncached =>
    rw [hinto]
    exact hc
  case keys =>
    intro key
    rw [hget, List.map_append, List.mem_append, ← h.keys key]
    split
    · rename_i hk
      simp [hk]
    · rename_i hk
      simp [eq_comm (a := key), hk]
  case answers =>
    intro key f hf
    rw [hget] at hf
    split at hf
    · rename_i hk
      obtain rfl := Option.some.inj hf
      exact ⟨c, by simp, hk, hallowed.trans (Grants.congr h.base)⟩
    · obtain ⟨c', hc', hspec⟩ := h.answers key f hf
      exact ⟨c', List.mem_append_left _ hc', hspec⟩

lemma files_bulk (hc : e.cache = none) (ha : e.store.available = true) (principal : String)
    (checks : List ResourceCheck) (ctx : Context) :
    e.Files principal ctx checks (e.evaluateBulk principal checks ctx) := by
  -- The induction is on the checks that are left, whatever was filed before them.
  have hfold : ∀ (rest done : List ResourceCheck) {acc : BulkDecision × Engine σ},
      e.Files principal ctx done acc →
        e.Files principal ctx (done ++ rest) (rest.foldl (evaluateInto principal ctx) acc) := by
    intro rest
    induction rest with
    | nil => exact fun done acc h => by simpa using h
    | cons c rest ih =>
      intro done acc h
      simpa using ih (done ++ [c]) (h.next ha c)
  have hstart : e.Files principal ctx [] (.empty principal, e) :=
    ⟨.refl e, hc, by simp [BulkDecision.empty, Table.get?, Table.empty],
      by simp [BulkDecision.empty, Table.get?, Table.empty]⟩
  exact hfold checks [] hstart

def AnswersEach (e : Engine σ) (principal : String) (checks : List ResourceCheck)
    (ctx : Context) : Prop :=
  ∀ c ∈ checks, ∃ d, (e.evaluate (c.forPrincipal principal) ctx).1 = .ok d ∧
    (e.evaluateBulk principal checks ctx).1.allowed c = d.allowed

def FilesEach (e : Engine σ) (principal : String) (checks : List ResourceCheck)
    (ctx : Context) : Prop :=
  (e.evaluateBulk principal checks ctx).1.results.size = checks.dedup.length

lemma answersEach_iff (hc : e.cache = none) (ha : e.store.available = true) :
    e.AnswersEach principal checks ctx ↔ ∀ c ∈ checks,
      ((e.evaluateBulk principal checks ctx).1.allowed c = true ↔
        e.Grants (c.forPrincipal principal) ctx) := by
  refine forall₂_congr fun c _ => ?_
  obtain ⟨d, hd, hallowed⟩ := evaluate_grants hc ha (c.forPrincipal principal) ctx
  rw [← hallowed, ← Bool.eq_iff_iff]
  constructor
  · rintro ⟨d', hd', he⟩
    obtain rfl := Except.ok.inj (hd.symm.trans hd')
    exact he
  · exact fun he => ⟨d, hd, he⟩

lemma answersEach_of_separateFor (hc : e.cache = none) (ha : e.store.available = true)
    (h : ResourceCheck.SeparateFor principal checks) : e.AnswersEach principal checks ctx := by
  refine (answersEach_iff hc ha).mpr fun c hm => ?_
  obtain ⟨c', hm', hk, hallowed⟩ := (files_bulk hc ha principal checks ctx).allowed_iff hm
  rw [hallowed]
  by_cases hcomplete : (c.forPrincipal principal).missingField = none
  · rw [h c hm c' hm' hcomplete hk]
  · by_cases hcomplete' : (c'.forPrincipal principal).missingField = none
    · rw [h c' hm' c hm hcomplete' hk.symm]
    · exact iff_of_false (fun hg => hcomplete' hg.1) fun hg => hcomplete hg.1

lemma separateFor_of_answersEach
    (h : ∀ e : Engine σ, e.cache = none → e.store.available = true →
      e.AnswersEach principal checks ctx) : ResourceCheck.SeparateFor principal checks := by
  intro c hm c' hm' hcomplete hk
  have hanswers := (answersEach_iff rfl rfl).mp (h (permitting principal c) rfl rfl)
  have hgranted := (hanswers c hm).mpr (grants_permitting hcomplete ctx)
  have hsame (answers : BulkDecision) : answers.allowed c' = answers.allowed c := by
    rw [BulkDecision.allowed, BulkDecision.allowed, hk]
  exact eq_of_permitting hk ((hanswers c' hm').mp ((hsame _).trans hgranted))

lemma size_bulk (hc : e.cache = none) (ha : e.store.available = true) (principal : String)
    (checks : List ResourceCheck) (ctx : Context) :
    (e.evaluateBulk principal checks ctx).1.results.size =
      (checks.toFinset.image (·.key)).card := by
  have hkeys := (files_bulk hc ha principal checks ctx).keys
  generalize (e.evaluateBulk principal checks ctx).1.results = t at hkeys
  calc t.size = (t.rows.map Keyed.key).length := (List.length_map _).symm
    _ = (t.rows.map Keyed.key).toFinset.card := (List.toFinset_card_of_nodup t.nodup_keys).symm
    _ = (checks.toFinset.image (·.key)).card := by
      congr 1
      ext key
      rw [List.mem_toFinset, ← Table.isSome_get?, hkeys]
      simp

lemma filesEach_iff (hc : e.cache = none) (ha : e.store.available = true) :
    e.FilesEach principal checks ctx ↔ ResourceCheck.Separate checks := by
  rw [FilesEach, size_bulk hc ha, ← List.card_toFinset, Finset.card_image_iff]
  simp only [Set.InjOn, List.coe_toFinset, Set.mem_ofPred_eq, ResourceCheck.Separate]
  exact ⟨fun h c hm c' hm' hk => h hm' hm hk, fun h c hm c' hm' hk => h c' hm' c hm hk⟩

theorem allowedActions_bulk (hc : e.cache = none) (ha : e.store.available = true)
    (principal type resource : String) (actions : List String) (ctx : Context) :
    let checks := actions.map fun action => ⟨type, resource, action⟩
    CommandLine.allowedActions (e.evaluateBulk principal checks ctx).1 checks =
      actions.filter fun action =>
        (e.evaluate ⟨principal, type, resource, action⟩ ctx).1.toOption.any (·.allowed) := by
  intro checks
  have hanswers : e.AnswersEach principal checks ctx := answersEach_of_separateFor hc ha
    ((ResourceCheck.separate_of_actions type resource actions).separateFor principal)
  rw [CommandLine.allowedActions, List.filter_map, List.map_map]
  refine (List.map_id _).trans (List.filter_congr fun action hm => ?_)
  obtain ⟨d, hd, he⟩ := hanswers _ (List.mem_map_of_mem hm)
  rw [ResourceCheck.forPrincipal] at hd
  simp only [Function.comp_apply, he, hd, Except.toOption, Option.any_some]

/-- In whatever store, the checks of a batch are answered as they are answered alone exactly if no
complete one shares its key with another, and have an entry each exactly if no two share one. -/
theorem bulk_each_iff_separate (principal : String) (checks : List ResourceCheck) (ctx : Context) :
    ((∀ e : Engine σ, e.cache = none → e.store.available = true →
        e.AnswersEach principal checks ctx) ↔ ResourceCheck.SeparateFor principal checks) ∧
    ((∀ e : Engine σ, e.cache = none → e.store.available = true →
        e.FilesEach principal checks ctx) ↔ ResourceCheck.Separate checks) := by
  refine ⟨⟨separateFor_of_answersEach, fun h e hc ha => answersEach_of_separateFor hc ha h⟩, ?_⟩
  refine ⟨fun h => ?_, fun h e hc ha => (filesEach_iff hc ha).mpr h⟩
  exact (filesEach_iff rfl rfl).mp (h (permitting principal ⟨"", "", ""⟩) rfl rfl)

example : ResourceCheck.key ⟨"doc", "1:2", "read"⟩ = ResourceCheck.key ⟨"doc", "1", "2:read"⟩ := by
  decide

end Engine

end AccessControl
