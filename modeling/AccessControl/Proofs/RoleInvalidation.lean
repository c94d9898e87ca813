import AccessControl.Proofs.Restriction
import AccessControl.Proofs.Serving

/-! Once a role was invalidated, what names it is served only if it was written since. A marker of the
role that is there was written since, and then so was the value that it stands for: a value is set
right after its markers, and takes the place of the one before it. -/

namespace AccessControl

open LosingCache (Holds)
open CacheKey (Plain marker)

inductive CacheOperation where
  | putRoles (principal : String) (ctx : Context) (roles : EffectiveRoles)
  | putDecision (key : String) (d : Decision)
  | getRoles (principal : String) (ctx : Context)
  | getDecision (key : String) (now : Instant)
  | drop (item : Stale)

namespace CacheOperation

def act {σ : Type} [CacheService σ] (l : Lifetimes) (c : σ) : CacheOperation → σ
  | putRoles principal ctx v => EvaluationCache.putRoles l.roles c principal ctx v
  | putDecision key d => EvaluationCache.putDecision l.decisions c key d
  | getRoles principal ctx => (EvaluationCache.getRoles c principal ctx).2
  | getDecision key now => (EvaluationCache.getDecision c key now).2
  | drop item => (item.drop c).2

def run {σ : Type} [CacheService σ] (l : Lifetimes) (c : σ) (ops : List CacheOperation) : σ :=
  ops.foldl (act l) c

def written? (l : Lifetimes) : CacheOperation → Option (String × String)
  | putRoles principal ctx v => (Lifetimes.bounded l.roles v.validUntil ctx.now).map fun _ =>
      (CacheKey.roles principal ctx, v.json.written)
  | putDecision key d => (Lifetimes.bounded l.decisions d.validUntil d.evaluatedAt).map fun _ =>
      (key, d.json.written)
  | getRoles _ _ | getDecision _ _ | drop _ => none

def names : CacheOperation → List String
  | putRoles _ _ v => v.names
  | putDecision _ d => d.roleIds
  | getRoles _ _ | getDecision _ _ | drop _ => []

variable {σ : Type} [LosingCache σ] {l : Lifetimes} {c : σ} {role key : String}

lemma act_cases (l : Lifetimes) (c : σ) (op : CacheOperation) :
    (∃ key text ttl, op.written? l = some (key, text) ∧
      op.act l c = EvaluationCache.write c key text ttl op.names) ∨ Shrunk c (op.act l c) := by
  cases op with
  | putRoles principal ctx v =>
    simp only [act, EvaluationCache.putRoles, written?]
    cases Lifetimes.bounded l.roles v.validUntil ctx.now with
    | none => exact Or.inr (.refl c)
    | some ttl => exact Or.inl ⟨_, _, ttl, rfl, rfl⟩
  | putDecision key d =>
    simp only [act, EvaluationCache.putDecision, written?]
    cases Lifetimes.bounded l.decisions d.validUntil d.evaluatedAt with
    | none => exact Or.inr (.refl c)
    | some ttl => exact Or.inl ⟨_, _, ttl, rfl, rfl⟩
  | getRoles principal ctx => exact Or.inr (EvaluationCache.fetch_spec _ c _ _).1
  | getDecision key now => exact Or.inr (EvaluationCache.fetch_spec _ c _ _).1
  | drop item => exact Or.inr (Stale.dropped_drop c item).1

end CacheOperation

section fence

open CacheOperation

variable {σ : Type} [LosingCache σ] {l : Lifetimes} {c : σ} {role key : String}
  {ops : List CacheOperation}

def WrittenBy (l : Lifetimes) (ops : List CacheOperation) (key text : String) : Prop :=
  ∃ op ∈ ops, op.written? l = some (key, text)

/-- Nothing is put where the marker of the role for the key belongs. -/
def SparesMarker (l : Lifetimes) (ops : List CacheOperation) (role key : String) : Prop :=
  ∀ op ∈ ops, ∀ text, op.written? l ≠ some (marker role key, text)

def Fenced (l : Lifetimes) (role key : String) (c : σ) (ops : List CacheOperation) : Prop :=
  (∃ m, Holds c (marker role key) m) → ∀ text, Holds c key text → text = "" ∨ WrittenBy l ops key text

lemma Fenced.act (h : Fenced l role key c ops) (hrole : Plain role) {op : CacheOperation}
    (hnames : ∀ name ∈ op.names, Plain name)
    (hmarker : ∀ text, op.written? l ≠ some (marker role key, text)) :
    Fenced l role key (op.act l c) (ops ++ [op]) := by
  have hmono : ∀ {k text}, WrittenBy l ops k text → WrittenBy l (ops ++ [op]) k text := by
    rintro k text ⟨op', hop, hw⟩
    exact ⟨op', List.mem_append_left _ hop, hw⟩
  rintro ⟨m, hm⟩ text ht
  rcases act_cases l c op with ⟨k, value, ttl, hw, he⟩ | hs
  · rw [he] at hm ht
    have hnew : ∀ {text}, key = k → text = value → WrittenBy l (ops ++ [op]) key text := by
      rintro text rfl rfl
      exact ⟨op, List.mem_append_right _ List.mem_cons_self, hw⟩
    rcases EvaluationCache.write_spec _ _ _ _ _ _ _ ht with ⟨hk, hv⟩ | ⟨hne, ht⟩
    · exact Or.inr (hnew hk hv)
    rcases ht with ⟨rfl, -⟩ | ht
    · exact Or.inl rfl
    -- Another key was written to, so the marker is none that came with that value.
    rcases EvaluationCache.write_spec _ _ _ _ _ _ _ hm with ⟨rfl, -⟩ | ⟨-, ⟨-, name, hname, hk⟩ | hm⟩
    · exact absurd hw (hmarker value)
    · exact absurd (CacheKey.marker_injective hrole (hnames name hname) hk).2 hne
    · exact (h ⟨m, hm⟩ text ht).imp_right hmono
  · exact (h ⟨m, hs _ _ hm⟩ text (hs _ _ ht)).imp_right hmono

lemma Fenced.run (h : Fenced l role key c ops) (hrole : Plain role) {more : List CacheOperation}
    (hnames : ∀ op ∈ more, ∀ name ∈ op.names, Plain name)
    (hmarker : SparesMarker l more role key) :
    Fenced l role key (CacheOperation.run l c more) (ops ++ more) := by
  induction more generalizing c ops with
  | nil =>
    rw [List.append_nil]
    exact h
  | cons op more ih =>
    have hact := h.act hrole (hnames op List.mem_cons_self) (hmarker op List.mem_cons_self)
    have hrun := ih hact (fun op' hop => hnames op' (List.mem_cons_of_mem _ hop))
      fun op' hop => hmarker op' (List.mem_cons_of_mem _ hop)
    rwa [List.append_assoc] at hrun

lemma fenced_invalidateRole (l : Lifetimes) (c : σ) (role : String) (hkey : '\n' ∉ key.toList) :
    Fenced l role key (EvaluationCache.invalidateRole c role).2 [] := by
  rintro ⟨m, hm⟩
  exact absurd hm ((EvaluationCache.invalidateRole_spec c role).2 key hkey m)

lemma Fenced.fetch {α : Type} (h : Fenced l role key c ops) (kept : EvaluationCache.Kept α)
    (hempty : kept.decode "" = none) {now : Instant} {value : α}
    (hv : (EvaluationCache.fetch kept c key now).1 = some value) (hr : role ∈ kept.roles value) :
    ∃ text, WrittenBy l ops key text ∧ kept.decode text = some value := by
  obtain ⟨hserved, -⟩ := (EvaluationCache.fetch_spec kept c key now).2 value hv
  obtain ⟨text, ht, hd⟩ := hserved.text
  rcases h (hserved.markers role hr) text ht with rfl | hw
  · rw [hempty] at hd
    cases hd
  · exact ⟨text, hw, hd⟩

end fence

/-- Whatever was done and lost before and after a role was invalidated, a role set or decision that
names the role is got only if it was written since, provided that nothing was put where the role's
marker for its key belongs. -/
theorem written_of_got_after_invalidateRole (l : Lifetimes) (capacity : Nat)
    (mishaps : Nat → Mishap) (before : List CacheOperation) {after : List CacheOperation}
    {role : String} (hrole : Plain role) (hnames : ∀ op ∈ after, ∀ name ∈ op.names, Plain name) :
    let c := CacheOperation.run l (EvaluationCache.invalidateRole
      (CacheOperation.run l (UnsteadyCache.ofCapacity capacity mishaps) before) role).2 after
    (∀ principal ctx v, '\n' ∉ (CacheKey.roles principal ctx).toList →
      SparesMarker l after role (CacheKey.roles principal ctx) →
      (EvaluationCache.getRoles c principal ctx).1 = some v → role ∈ v.names →
        ∃ text, WrittenBy l after (CacheKey.roles principal ctx) text ∧
          EffectiveRoles.ofText? text = some v) ∧
    ∀ key now d, '\n' ∉ key.toList → SparesMarker l after role key →
      (EvaluationCache.getDecision c key now).1 = some d → role ∈ d.roleIds →
        ∃ text, WrittenBy l after key text ∧ Decision.ofText? text = some d := by
  intro c
  have hfenced : ∀ key, '\n' ∉ key.toList → SparesMarker l after role key →
      Fenced l role key c after :=
    fun key hkey hmarker => (fenced_invalidateRole l _ role hkey).run hrole hnames hmarker
  constructor
  · intro principal ctx v hkey hmarker hv hr
    exact (hfenced _ hkey hmarker).fetch EvaluationCache.keptRoles rfl hv hr
  · intro key now d hkey hmarker hd hr
    exact (hfenced _ hkey hmarker).fetch EvaluationCache.keptDecision rfl hd hr

def decisionNaming (id role : String) : Decision :=
  { Decision.plain id true "" ⟨none, none, ⟨0, 0⟩⟩ with roles := [⟨role, role, ["direct"], false⟩] }

namespace CacheOperation

variable {σ : Type} [LosingCache σ] {l : Lifetimes} {c : σ} {role key key' text : String}
  {d d' : Decision}

lemma text_of_put (hd : d.validUntil = none)
    (h : Holds (run l c [.putDecision key d]) key text) : text = d.json.written :=
  EvaluationCache.text_of_putDecision hd h

lemma text_of_put_invalidateRole_put (hd : d.validUntil = none) (hkey : key ≠ key')
    (hmarkers : ∀ role ∈ d'.roleIds, key ≠ marker role key')
    (h : Holds (run l (EvaluationCache.invalidateRole (run l c [.putDecision key d]) role).2
      [.putDecision key' d']) key text) : text = d.json.written :=
  text_of_put hd ((EvaluationCache.invalidateRole_spec _ role).1 _ _
    (EvaluationCache.holds_of_putDecision hkey hmarkers h))

end CacheOperation

lemma reads_decisionNaming {id role : String}
    (h : (id, role) ∈ [("1", "editor"), ("2", "editor")]) :
    Decision.ofText? (decisionNaming id role).json.written = some (decisionNaming id role) := by
  rw [Decision.ofText?, Document.ofText?, Document.scan?, Json.written, String.toList_ofList]
  simp only [List.mem_cons, Prod.mk.injEq, List.not_mem_nil, or_false] at h
  rcases h with ⟨rfl, rfl⟩ | ⟨rfl, rfl⟩ <;> decide +kernel

theorem written_of_got_editor :
    let after : List CacheOperation :=
      [.putDecision "role:editor:dep:other" (decisionNaming "1" "editor"),
        .putDecision "decision:ada" (decisionNaming "2" "editor")]
    let c := CacheOperation.run .default (EvaluationCache.invalidateRole
      (CacheOperation.run .default (UnsteadyCache.ofCapacity 8 fun _ => ⟨fun _ => false, .zero⟩)
        [.putDecision "decision:ada" (decisionNaming "1" "editor")]) "editor").2 after
    (EvaluationCache.getDecision c "decision:ada" ⟨1, 0⟩).1 = some (decisionNaming "2" "editor") ∧
      ∃ text, WrittenBy .default after "decision:ada" text ∧
        Decision.ofText? text = some (decisionNaming "2" "editor") := by
  intro after c
  have hgot : (EvaluationCache.getDecision c "decision:ada" ⟨1, 0⟩).1 =
      some (decisionNaming "2" "editor") := by
    have hheld : ∀ text, Holds c "decision:ada" text →
        EvaluationCache.keptDecision.decode text = some (decisionNaming "2" "editor") := by
      intro text h
      have hdecode : EvaluationCache.keptDecision.decode = Decision.ofText? := rfl
      rw [CacheOperation.text_of_put rfl h, hdecode]
      exact reads_decisionNaming (by decide)
    apply EvaluationCache.fetch_of_held (by decide +kernel) hheld rfl (by decide +kernel)
  have hnames : ∀ op ∈ after, ∀ name ∈ op.names, Plain name := by decide
  have hmarker : SparesMarker .default after "editor" "decision:ada" := by
    intro op hop text he
    simp only [after, List.mem_cons, List.not_mem_nil, or_false] at hop
    rcases hop with rfl | rfl
    all_goals exact absurd (Prod.mk.inj (Option.some.inj he)).1 (by decide)
  exact ⟨hgot, (written_of_got_after_invalidateRole .default 8 _ _ (by decide) hnames).2
    "decision:ada" ⟨1, 0⟩ _ (by decide) hmarker hgot (by decide)⟩

/-- A decision that is put where a marker belongs stands for the marker, and brings back a decision
from before the invalidation that the invalidation could not find. -/
theorem got_after_invalidateRole_of_marker :
    let evicts : Nat → Mishap := fun n =>
      ⟨fun key => n == 2 && key == "role:editor:dep:decision:ada", .zero⟩
    let after : List CacheOperation :=
      [.putDecision "role:editor:dep:decision:ada" (decisionNaming "2" "viewer")]
    let c := CacheOperation.run .default (EvaluationCache.invalidateRole
      (CacheOperation.run .default (UnsteadyCache.ofCapacity 8 evicts)
        [.putDecision "decision:ada" (decisionNaming "1" "editor")]) "editor").2 after
    (∀ name ∈ ["editor", "viewer"], Plain name) ∧
      (∀ key ∈ ["decision:ada", "role:editor:dep:decision:ada"], '\n' ∉ key.toList) ∧
      (EvaluationCache.getDecision c "decision:ada" ⟨1, 0⟩).1 =
        some (decisionNaming "1" "editor") ∧
      "editor" ∈ (decisionNaming "1" "editor").roleIds ∧
      ¬ ∃ text, WrittenBy .default after "decision:ada" text := by
  intro evicts after c
  have hheld : ∀ text, Holds c "decision:ada" text →
      EvaluationCache.keptDecision.decode text = some (decisionNaming "1" "editor") := by
    intro text h
    have hdecode : EvaluationCache.keptDecision.decode = Decision.ofText? := rfl
    rw [CacheOperation.text_of_put_invalidateRole_put rfl (by decide) (by decide) h, hdecode]
    exact reads_decisionNaming (by decide)
  refine ⟨by decide, by decide, ?_, by decide, ?_⟩
  · apply EvaluationCache.fetch_of_held (by decide +kernel) hheld rfl (by decide +kernel)
  rintro ⟨text, op, hop, hw⟩
  obtain rfl := List.mem_singleton.mp hop
  exact absurd (Prod.mk.inj (Option.some.inj hw)).1 (by decide)

end AccessControl
