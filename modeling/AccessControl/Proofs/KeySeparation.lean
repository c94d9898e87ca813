import AccessControl.Cache.Keys
import Mathlib.Tactic.Common

/-! A key of the evaluation cache joins its parts with a colon, and nothing escapes a colon inside a
part. A key stands for one question exactly when no part of the question holds the separator and its
context does not name the mark for an absent part. -/

namespace AccessControl.CacheKey

def Plain (part : String) : Prop := ':' ∉ part.toList

instance (part : String) : Decidable (Plain part) := inferInstanceAs (Decidable (¬ _))

lemma segments_cons (part : String) {parts : List String} (h : parts ≠ []) :
    segments (part :: parts) = part ++ ":" ++ segments parts := by
  simp [segments, String.intercalate_cons_of_ne_nil h]

lemma count_segments {parts : List String} (h : parts ≠ []) :
    (segments parts).toList.count ':' + 1 =
      parts.length + (parts.flatMap String.toList).count ':' := by
  induction parts with
  | nil => exact absurd rfl h
  | cons part rest ih =>
    by_cases hr : rest = []
    · subst hr
      simp [segments]
      omega
    · have hc := ih hr
      simp only [segments_cons part hr, String.toList_append, List.count_append, List.length_cons,
        List.flatMap_cons]
      have hs : ":".toList.count ':' = 1 := by decide
      omega

lemma plain_of_segments_eq {xs ys : List String} (hx : ∀ part ∈ xs, Plain part)
    (hl : ys.length = xs.length) (h : segments ys = segments xs) : ∀ part ∈ ys, Plain part := by
  by_cases hn : xs = []
  · subst hn
    simp [List.length_eq_zero_iff.mp hl]
  have hn' : ys ≠ [] := by
    rintro rfl
    exact hn (List.length_eq_zero_iff.mp hl.symm)
  have hxs : (xs.flatMap String.toList).count ':' = 0 :=
    List.count_eq_zero.mpr fun hm => by
      obtain ⟨part, hp, hc⟩ := List.mem_flatMap.mp hm
      exact hx part hp hc
  have hc := count_segments hn
  have hc' := count_segments hn'
  rw [h] at hc'
  have hys : (ys.flatMap String.toList).count ':' = 0 := by omega
  intro part hp hm
  exact List.count_eq_zero.mp hys (List.mem_flatMap.mpr ⟨part, hp, hm⟩)

lemma split_unique {x y a b : List Char} (hx : ':' ∉ x) (hy : ':' ∉ y)
    (h : x ++ ':' :: a = y ++ ':' :: b) : x = y ∧ a = b := by
  induction x generalizing y with
  | nil =>
    cases y with
    | nil => exact ⟨rfl, (List.cons.inj h).2⟩
    | cons d y => exact absurd ((List.cons.inj h).1 ▸ List.mem_cons_self) hy
  | cons c x ih =>
    cases y with
    | nil => exact absurd ((List.cons.inj h).1 ▸ List.mem_cons_self) hx
    | cons d y =>
      simp only [List.cons_append, List.cons.injEq, List.mem_cons, not_or] at h hx hy
      obtain ⟨rfl, rfl⟩ := ih hx.2 hy.2 h.2
      exact ⟨by rw [h.1], rfl⟩

lemma segments_injective {xs ys : List String} (hx : ∀ part ∈ xs, Plain part)
    (hy : ∀ part ∈ ys, Plain part) (hl : ys.length = xs.length)
    (h : segments ys = segments xs) : ys = xs := by
  induction xs generalizing ys with
  | nil => exact List.length_eq_zero_iff.mp hl
  | cons x xs ih =>
    obtain ⟨y, ys, rfl⟩ := List.exists_cons_of_length_eq_add_one hl
    simp only [List.length_cons, Nat.add_right_cancel_iff] at hl
    by_cases hn : xs = []
    · subst hn
      obtain rfl := List.length_eq_zero_iff.mp hl
      simpa [segments] using h
    · have hn' : ys ≠ [] := by
        rintro rfl
        exact hn (List.length_eq_zero_iff.mp hl.symm)
      rw [segments_cons y hn', segments_cons x hn, ← String.toList_inj] at h
      simp only [String.toList_append, List.append_assoc] at h
      obtain ⟨he, hs⟩ := split_unique (hy y (by simp)) (hx x (by simp)) h
      replace he := String.toList_inj.mp he
      replace hs := String.toList_inj.mp hs
      have hr := ih (fun p hp => hx p (List.mem_cons_of_mem _ hp))
        (fun p hp => hy p (List.mem_cons_of_mem _ hp)) hl hs
      rw [he, hr]

lemma segments_eq_iff {xs ys : List String} (hx : ∀ part ∈ xs, Plain part)
    (hl : ys.length = xs.length) : segments ys = segments xs ↔ ys = xs := by
  refine ⟨fun h => ?_, fun h => by rw [h]⟩
  exact segments_injective hx (plain_of_segments_eq hx hl h) hl h

lemma exists_split_of_not_plain {part : String} (h : ¬ Plain part) :
    ∃ a b : String, part = a ++ ":" ++ b := by
  obtain ⟨a, b, hab⟩ := List.append_of_mem (Decidable.not_not.mp h)
  refine ⟨String.ofList a, String.ofList b, ?_⟩
  rw [← String.toList_inj]
  simp [hab]

lemma append_colon_ne (a b : String) : a ++ ":" ++ b ≠ a := by
  intro h
  have hl := congrArg (fun s => s.toList.length) h
  simp at hl

lemma exists_same_segments {xs : List String} (hl : 2 ≤ xs.length)
    (h : ¬ ∀ part ∈ xs, Plain part) :
    ∃ ys, ys.length = xs.length ∧ segments ys = segments xs ∧ ys ≠ xs := by
  induction xs with
  | nil => simp at hl
  | cons x rest ih =>
    obtain ⟨y, rest, rfl⟩ : ∃ y r, rest = y :: r := by
      cases rest with
      | nil => simp at hl
      | cons y r => exact ⟨y, r, rfl⟩
    by_cases hx : Plain x
    · by_cases hr : rest = []
      · subst hr
        have hy : ¬ Plain y := by
          intro hy
          exact h (by simp [hx, hy])
        obtain ⟨a, b, rfl⟩ := exists_split_of_not_plain hy
        refine ⟨[x ++ ":" ++ a, b], rfl, ?_, ?_⟩
        · simp [segments, String.append_assoc]
        · intro he
          exact append_colon_ne x a (List.cons.inj he).1
      · have hrest : ¬ ∀ part ∈ y :: rest, Plain part := by
          intro hp
          refine h fun part hm => ?_
          rcases List.mem_cons.mp hm with rfl | hm
          · exact hx
          · exact hp part hm
        have hlen : 2 ≤ (y :: rest).length := by
          have := List.length_pos_iff.mpr hr
          simp
          omega
        obtain ⟨ys, hyl, hys, hne⟩ := ih hlen hrest
        have hn : ys ≠ [] := by
          rintro rfl
          simp at hyl
        refine ⟨x :: ys, by simp [hyl], ?_, ?_⟩
        · rw [segments_cons x hn, segments_cons x (List.cons_ne_nil y rest), hys]
        · intro he
          exact hne (List.cons.inj he).2
    · obtain ⟨a, b, rfl⟩ := exists_split_of_not_plain hx
      refine ⟨a :: (b ++ ":" ++ y) :: rest, rfl, ?_, ?_⟩
      · by_cases hr : rest = []
        · subst hr
          simp [segments, String.append_assoc]
        · rw [segments_cons a (List.cons_ne_nil _ rest), segments_cons _ hr,
            segments_cons _ (List.cons_ne_nil y rest), segments_cons y hr]
          simp only [String.append_assoc]
      · intro he
        exact append_colon_ne a b (List.cons.inj he).1.symm

/-- The context gives the mark for an absent part as the name of a part. -/
def Marked (ctx : Context) : Prop :=
  ctx.organization = some absent ∨ ctx.group = some absent

instance (ctx : Context) : Decidable (Marked ctx) := inferInstanceAs (Decidable (_ ∨ _))

lemma getD_absent_inj {a b : Option String} (ha : a ≠ some absent) (hb : b ≠ some absent)
    (h : a.getD absent = b.getD absent) : a = b := by
  cases a with
  | none =>
    cases b with
    | none => rfl
    | some b => exact absurd (congrArg some h.symm) hb
  | some a =>
    cases b with
    | none => exact absurd (congrArg some h) ha
    | some b => exact congrArg some h

lemma contextParts_inj {ctx ctx' : Context} (h : ¬ Marked ctx) (h' : ¬ Marked ctx')
    (he : contextParts ctx' = contextParts ctx) :
    ctx'.organization = ctx.organization ∧ ctx'.group = ctx.group := by
  obtain ⟨ho, hg⟩ := not_or.mp h
  obtain ⟨ho', hg'⟩ := not_or.mp h'
  simp only [contextParts, List.cons.injEq, and_true] at he
  exact ⟨getD_absent_inj ho' ho he.1, getD_absent_inj hg' hg he.2⟩

def unmarked (organization group : String) (now : Instant) : Context :=
  let named (part : String) := if part = absent then none else some part
  ⟨named organization, named group, now⟩

lemma unmarked_not_marked (organization group : String) (now : Instant) :
    ¬ Marked (unmarked organization group now) := by
  simp only [Marked, unmarked, not_or]
  constructor <;> split <;> simp_all

lemma contextParts_unmarked (organization group : String) (now : Instant) :
    contextParts (unmarked organization group now) = [organization, group] := by
  simp only [contextParts, unmarked]
  congr 1
  · split <;> simp_all
  · congr 1
    split <;> simp_all

lemma contextParts_congr {ctx ctx' : Context}
    (h : ctx'.organization = ctx.organization ∧ ctx'.group = ctx.group) :
    contextParts ctx' = contextParts ctx := by
  rw [contextParts, contextParts, h.1, h.2]

lemma marked_ne_unmarked {ctx : Context} {organization group : String} {now : Instant}
    (hm : Marked ctx) : ¬ ((unmarked organization group now).organization = ctx.organization ∧
      (unmarked organization group now).group = ctx.group) := by
  rintro ⟨ho, hg⟩
  obtain ⟨hu, hu'⟩ := not_or.mp (unmarked_not_marked organization group now)
  rcases hm with hm | hm
  · exact hu (ho.trans hm)
  · exact hu' (hg.trans hm)

def rolesParts (principal : String) (ctx : Context) : List String :=
  principal :: contextParts ctx

def decisionParts (r : AccessRequest) (ctx : Context) : List String :=
  rolesParts r.principal ctx ++ [r.type, r.resource, r.action]

lemma roles_eq (principal : String) (ctx : Context) :
    roles principal ctx = "roles" ++ ":" ++ segments (rolesParts principal ctx) :=
  segments_cons "roles" (List.cons_ne_nil principal _)

lemma decision_eq (r : AccessRequest) (ctx : Context) :
    decision r ctx = "decision" ++ ":" ++ segments (decisionParts r ctx) :=
  segments_cons "decision" (List.cons_ne_nil r.principal _)

lemma roles_eq_iff {principal principal' : String} {ctx ctx' : Context}
    (h : ∀ part ∈ rolesParts principal ctx, Plain part) :
    roles principal' ctx' = roles principal ctx ↔
      principal' = principal ∧ contextParts ctx' = contextParts ctx := by
  rw [roles_eq, roles_eq, String.append_right_inj, segments_eq_iff h (by simp [rolesParts,
    contextParts])]
  simp [rolesParts]

lemma decision_eq_iff {r r' : AccessRequest} {ctx ctx' : Context}
    (h : ∀ part ∈ decisionParts r ctx, Plain part) :
    decision r' ctx' = decision r ctx ↔ r' = r ∧ contextParts ctx' = contextParts ctx := by
  rw [decision_eq, decision_eq, String.append_right_inj, segments_eq_iff h (by simp [decisionParts,
    rolesParts, contextParts])]
  cases r
  cases r'
  simp only [decisionParts, rolesParts, contextParts, List.cons_append, List.nil_append,
    List.cons.injEq, and_true, AccessRequest.mk.injEq]
  tauto

lemma roles_eq_of_parts {principal : String} {ctx : Context} {ys : List String} (now : Instant)
    (hl : ys.length = (rolesParts principal ctx).length)
    (hs : segments ys = segments (rolesParts principal ctx)) :
    ∃ principal' organization group, ys = [principal', organization, group] ∧
      roles principal' (unmarked organization group now) = roles principal ctx := by
  match ys, hl with
  | [p, o, g], _ =>
    refine ⟨p, o, g, rfl, ?_⟩
    rw [roles_eq, roles_eq, rolesParts, contextParts_unmarked, hs]

lemma decision_eq_of_parts {r : AccessRequest} {ctx : Context} {ys : List String} (now : Instant)
    (hl : ys.length = (decisionParts r ctx).length)
    (hs : segments ys = segments (decisionParts r ctx)) :
    ∃ (r' : AccessRequest) (organization group : String),
      ys = [r'.principal, organization, group, r'.type, r'.resource, r'.action] ∧
      decision r' (unmarked organization group now) = decision r ctx := by
  match ys, hl with
  | [p, o, g, t, i, a], _ =>
    refine ⟨⟨p, t, i, a⟩, o, g, rfl, ?_⟩
    rw [decision_eq, decision_eq, decisionParts, rolesParts, contextParts_unmarked, ← hs]
    rfl

/-- Among the questions whose context does not name the mark, a question has its key for itself
exactly when none of its parts holds a separator and its context does not name the mark either. -/
theorem key_separates_iff (r : AccessRequest) (principal : String) (ctx : Context) :
    ((∀ r' ctx', ¬ Marked ctx' → decision r' ctx' = decision r ctx →
        r' = r ∧ ctx'.organization = ctx.organization ∧ ctx'.group = ctx.group) ↔
      (∀ part ∈ decisionParts r ctx, Plain part) ∧ ¬ Marked ctx) ∧
    ((∀ principal' ctx', ¬ Marked ctx' → roles principal' ctx' = roles principal ctx →
        principal' = principal ∧ ctx'.organization = ctx.organization ∧
          ctx'.group = ctx.group) ↔
      (∀ part ∈ rolesParts principal ctx, Plain part) ∧ ¬ Marked ctx) := by
  constructor
  · constructor
    · intro h
      refine ⟨?_, ?_⟩
      · by_contra hp
        obtain ⟨ys, hl, hs, hne⟩ := exists_same_segments (by simp [decisionParts]) hp
        obtain ⟨r', o, g, rfl, hk⟩ := decision_eq_of_parts ctx.now hl hs
        obtain ⟨rfl, hog⟩ := h r' _ (unmarked_not_marked o g ctx.now) hk
        have hc := contextParts_congr hog
        rw [contextParts_unmarked] at hc
        exact hne (by simp [decisionParts, rolesParts, ← hc])
      · intro hm
        have hk : decision r (unmarked (ctx.organization.getD absent) (ctx.group.getD absent)
            ctx.now) = decision r ctx := by
          rw [decision, contextParts_unmarked]
          rfl
        exact marked_ne_unmarked hm (h r _ (unmarked_not_marked _ _ _) hk).2
    · rintro ⟨hp, hm⟩ r' ctx' hm' hk
      obtain ⟨rfl, hc⟩ := (decision_eq_iff hp).mp hk
      exact ⟨rfl, contextParts_inj hm hm' hc⟩
  · constructor
    · intro h
      refine ⟨?_, ?_⟩
      · by_contra hp
        obtain ⟨ys, hl, hs, hne⟩ :=
          exists_same_segments (by simp [rolesParts, contextParts]) hp
        obtain ⟨principal', o, g, rfl, hk⟩ := roles_eq_of_parts ctx.now hl hs
        obtain ⟨rfl, hog⟩ := h principal' _ (unmarked_not_marked o g ctx.now) hk
        have hc := contextParts_congr hog
        rw [contextParts_unmarked] at hc
        exact hne (by simp [rolesParts, ← hc])
      · intro hm
        have hk : roles principal (unmarked (ctx.organization.getD absent) (ctx.group.getD absent)
            ctx.now) = roles principal ctx := by
          rw [roles, contextParts_unmarked]
          rfl
        exact marked_ne_unmarked hm (h principal _ (unmarked_not_marked _ _ _) hk).2
    · rintro ⟨hp, hm⟩ principal' ctx' hm' hk
      obtain ⟨rfl, hc⟩ := (roles_eq_iff hp).mp hk
      exact ⟨rfl, contextParts_inj hm hm' hc⟩

example : decision ⟨"u", "doc", "1:2", "read"⟩ ⟨none, none, ⟨0, 0⟩⟩ =
    decision ⟨"u", "doc", "1", "2:read"⟩ ⟨none, none, ⟨0, 0⟩⟩ := by decide

end AccessControl.CacheKey
