import AccessControl.Proofs.Bounds
import AccessControl.Proofs.HonestCaches
import AccessControl.Proofs.RoleTexts
import AccessControl.Proofs.Serving
import AccessControl.Proofs.Verdicts

/-! What a role set that was put into a cache is read back as: the same roles and bindings for as long.
Verdicts on the caveats stay the same as far as the caveats survive their texts. -/

namespace AccessControl

open EvaluationCache (putRoles getRoles keptRoles)

structure ConditionalGrant.ReadAs (g g' : ConditionalGrant) : Prop where
  binding : g.binding.ReadAs g'.binding
  roles : g'.roles = g.roles

structure ConditionalGrant.Regular (g : ConditionalGrant) : Prop where
  caveat : ∀ c, g.binding.caveat = some c → c.Regular
  roles : ∀ x ∈ g.roles, x.Regular

lemma EffectiveRole.list_eq_of_reads {xs ys : List EffectiveRole} (hxs : ∀ x ∈ xs, x.Regular)
    {d : Document} (h : (Json.array (xs.map EffectiveRole.json)).Reads d)
    (hd : d.list? EffectiveRole.ofDocument? = some ys) : ys = xs :=
  Document.eq_of_list? (fun x hx _ _ => EffectiveRole.eq_of_reads (hxs x hx)) h hd

lemma ConditionalGrant.readAs_of_reads {g g' : ConditionalGrant} (hg : g.Regular) {d : Document}
    (h : g.json.Reads d) (hd : ConditionalGrant.ofDocument? d = some g') : g.ReadAs g' := by
  obtain ⟨⟨db, hdb, hbinding⟩, dr, hdr, hroles⟩ := parts_of_reads h hd
  exact ⟨Binding.readAs_of_reads hg.caveat hdb hbinding,
    EffectiveRole.list_eq_of_reads hg.roles hdr hroles⟩

namespace EffectiveRoles

structure ReadAs (e e' : EffectiveRoles) : Prop where
  roles : e'.roles = e.roles
  conditional : List.Forall₂ ConditionalGrant.ReadAs e.conditional e'.conditional
  truncated : e'.truncated = e.truncated
  validUntil : e'.validUntil = e.validUntil

structure Regular (e : EffectiveRoles) : Prop where
  roles : ∀ x ∈ e.roles, x.Regular
  conditional : ∀ g ∈ e.conditional, g.Regular
  bound : RegularBound e.validUntil

lemma readAs_of_reads {e e' : EffectiveRoles} (he : e.Regular) {d : Document}
    (h : e.json.Reads d) (hd : EffectiveRoles.ofDocument? d = some e') : e.ReadAs e' := by
  obtain ⟨⟨dr, hdr, hroles⟩, ⟨dc, hdc, hcond⟩, ht, hv⟩ := parts_of_reads h hd
  refine ⟨EffectiveRole.list_eq_of_reads he.roles hdr hroles, ?_, ht, hv he.bound⟩
  exact Document.list?_of_reads
    (fun g hg _ _ => ConditionalGrant.readAs_of_reads (he.conditional g hg)) hdc hcond

lemma readAs_of_ofText? {e e' : EffectiveRoles} (he : e.Regular)
    (h : ofText? e.json.written = some e') : e.ReadAs e' := by
  obtain ⟨d, hd, h⟩ := Option.bind_eq_some_iff.mp h
  exact readAs_of_reads he (Json.reads_of_written hd) h

end EffectiveRoles

namespace Store

structure Regular (s : Store) : Prop where
  timed : s.Timed
  versions : ∀ r ∈ s.roles.rows, r.version < Word.bound
  caveats : ∀ b ∈ s.bindings.rows, ∀ c, b.caveat = some c → c.Regular

variable {s : Store} {maxDepth : Nat} {principal : String} {ctx : Context}

lemma Regular.of_grounded (hs : s.Regular) (hdepth : maxDepth < Word.bound)
    {organization : Option String} {start : String → Prop} {c : Collected}
    (hc : c.Grounded s maxDepth organization start) : ∀ x ∈ c.roles, x.Regular := by
  intro x hx
  obtain ⟨hd, ⟨hrole, hlive, -⟩, -⟩ := hc x hx
  have hdeleted : x.role.deletedAt = none := by
    rw [Role.isLive, Bool.and_eq_true] at hlive
    simpa using hlive.2
  exact ⟨⟨hs.versions _ (Table.mem_of_get? hrole), by simp [RegularBound, hdeleted]⟩,
    Nat.lt_of_le_of_lt hd hdepth⟩

lemma Regular.effectiveRoles (hs : s.Regular) (hdepth : maxDepth < Word.bound) :
    (s.effectiveRoles maxDepth principal ctx).Regular := by
  refine ⟨hs.of_grounded hdepth (spans_collected s maxDepth principal ctx).grounded, ?_,
    hs.timed.validUntil⟩
  intro g hg
  obtain ⟨b, hb, rfl, -⟩ := mem_conditional.mp hg
  refine ⟨hs.caveats b (List.mem_filter.mp hb).1, ?_⟩
  cases hrole : b.role? with
  | none => simp [boundRoles, hrole, Collected.empty]
  | some role => exact hs.of_grounded hdepth (spans_boundRoles hrole).grounded

end Store

lemma Honest.ofText?_of_getRoles {σ : Type} [CacheService σ] {c : σ} {principal : String}
    {ctx : Context} (hc : Honest c fun key _ => key ≠ CacheKey.roles principal ctx)
    {ttl : Duration} {t : Instant} {e e' : EffectiveRoles}
    (h : (getRoles (putRoles ttl c principal ctx e) principal { ctx with now := t }).1 = some e') :
    EffectiveRoles.ofText? e.json.written = some e' := by
  have hput : Honest (putRoles ttl c principal ctx e) fun key text =>
      key = CacheKey.roles principal ctx → text = e.json.written := by
    have hstart : Honest c fun key text =>
        key = CacheKey.roles principal ctx → text = e.json.written :=
      hc.mono fun _ _ hne hk => absurd hk hne
    unfold putRoles
    split
    · exact hstart.write (fun role hk => absurd hk.symm (CacheKey.roles_ne_marker _ _ _ _))
        (fun _ => rfl) _ _
    · exact hstart
  obtain ⟨text, htext, hdecode⟩ := (hput.fetch keptRoles _ t).2 e' h
  rw [← htext rfl]
  exact hdecode

namespace Store

variable {s : Store} {maxDepth : Nat} {principal : String} {ctx : Context}

theorem sameVerdicts_iff_survives {σ : Type} [CacheService σ] {c : σ}
    (hc : Honest c fun key _ => key ≠ CacheKey.roles principal ctx) (hs : s.Regular)
    (hdepth : maxDepth < Word.bound) {ttl : Duration} {t : Instant} {e' : EffectiveRoles} :
    let e := s.effectiveRoles maxDepth principal ctx
    (getRoles (putRoles ttl c principal ctx e) principal { ctx with now := t }).1 = some e' →
    e'.roles = e.roles ∧ e'.truncated = e.truncated ∧ e'.validUntil = e.validUntil ∧
      List.Forall₂ (fun g g' => g'.binding.id = g.binding.id ∧ g'.roles = g.roles ∧
        (g.binding.SameVerdicts g'.binding ↔
          ∀ caveat, g.binding.caveat = some caveat → caveat.Survives))
        e.conditional e'.conditional := by
  intro e h
  have hread := EffectiveRoles.readAs_of_ofText? (hs.effectiveRoles hdepth) (hc.ofText?_of_getRoles h)
  refine ⟨hread.roles, hread.truncated, hread.validUntil, hread.conditional.imp ?_⟩
  exact fun g g' hg => ⟨hg.binding.id, hg.roles, hg.binding.sameVerdicts_iff⟩

def wardBinding : Binding :=
  { Binding.attach "b" .user "ada" (.role "reader") "file" "acme" with
    caveat := some ((Caveat.unconstrained.requireAttribute "ward" (.string "north")).requireAttribute
      "ward" (.string "south")) }

def wards : Store :=
  { Store.empty with
    roles := .ofList [.global "reader" "Reader"]
    bindings := .ofList [wardBinding] }

lemma regular_wards : wards.Regular := by
  have hroles : wards.roles.rows = [.global "reader" "Reader"] := rfl
  constructor
  case timed => constructor <;> exact fun _ h => absurd h List.not_mem_nil
  case versions =>
    rw [hroles, List.forall_mem_singleton]
    decide
  case caveats =>
    intro b hb c hc
    obtain rfl := List.mem_singleton.mp hb
    obtain rfl := Option.some.inj hc
    refine ⟨by rintro w ⟨⟩, fun r hr => ?_⟩
    rcases List.mem_cons.mp hr with rfl | hr
    · trivial
    · obtain rfl := List.mem_singleton.mp hr
      trivial

lemma not_survives_wardBinding :
    ¬ ∀ caveat, wardBinding.caveat = some caveat → caveat.Survives := by
  intro h
  have hsouth := (h _ rfl "ward" (.string "south")).mpr (by rintro r ⟨⟩; rfl)
  exact absurd (hsouth ⟨"ward", .string "north"⟩ List.mem_cons_self rfl) (by decide)

lemma reads_wards : ∃ e', EffectiveRoles.ofText?
    (wards.effectiveRoles 10 "ada" ⟨some "acme", none, ⟨0, 0⟩⟩).json.written = some e' ∧
      e'.validUntil = none ∧ e'.names = ["reader"] := by
  have hany : (EffectiveRoles.ofText?
      (wards.effectiveRoles 10 "ada" ⟨some "acme", none, ⟨0, 0⟩⟩).json.written).any (fun e' =>
        e'.validUntil.isNone && e'.names == ["reader"]) = true := by
    rw [EffectiveRoles.ofText?, Document.ofText?, Document.scan?, Json.written,
      String.toList_ofList]
    decide +kernel
  obtain ⟨e', he', hspec⟩ := (Option.any_eq_true _ _).mp hany
  simp only [Bool.and_eq_true, Option.isNone_iff_eq_none, beq_iff_eq] at hspec
  exact ⟨e', he', hspec⟩

theorem sameVerdicts_iff_survives_wards :
    let ctx : Context := ⟨some "acme", none, ⟨0, 0⟩⟩
    let c := UnsteadyCache.ofCapacity 8 fun _ => ⟨fun _ => false, .ofSeconds 1⟩
    let e := wards.effectiveRoles 10 "ada" ctx
    ∃ e' g g', (getRoles (putRoles (.ofSeconds 300) c "ada" ctx e) "ada" ctx).1 = some e' ∧
      e.conditional = [g] ∧ e'.conditional = [g'] ∧ g'.binding.id = g.binding.id ∧
        ¬ g.binding.SameVerdicts g'.binding := by
  intro ctx c e
  obtain ⟨e', hreads, hbound, hnames⟩ := reads_wards
  have hdecode : keptRoles.decode = EffectiveRoles.ofText? := rfl
  have hmarked : keptRoles.roles e' = ["reader"] := hnames
  have hgot : (getRoles (putRoles (.ofSeconds 300) c "ada" ctx e) "ada" ctx).1 = some e' := by
    apply EvaluationCache.fetch_of_held (by decide +kernel) ?_ hbound
    · rw [hmarked]
      decide +kernel
    · intro text h
      rw [EvaluationCache.text_of_putRoles rfl h, hdecode]
      exact hreads
  have hempty : Honest c fun key _ => key ≠ CacheKey.roles "ada" ctx :=
    (LosingCache.honest c).mono fun _ _ ⟨_, hm, _⟩ => absurd hm List.not_mem_nil
  obtain ⟨-, -, -, hgrants⟩ := sameVerdicts_iff_survives hempty regular_wards (by decide) hgot
  obtain ⟨roles, hone⟩ : ∃ roles, e.conditional = [⟨wardBinding, roles⟩] := ⟨_, rfl⟩
  rw [hone] at hgrants
  generalize hconditional : e'.conditional = grants at hgrants
  cases hgrants with
  | cons hg hrest =>
    cases hrest with
    | nil =>
      exact ⟨e', _, _, hgot, hone, hconditional, hg.1,
        fun h => not_survives_wardBinding (hg.2.2.mp h)⟩

end Store

end AccessControl
