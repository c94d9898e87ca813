import AccessControl.Decision
import AccessControl.Proofs.Records
import AccessControl.Proofs.Restriction
import AccessControl.Proofs.StrictInstants

/-! What a cached text is read as grants what the value that was written grants, and holds as
long. -/

namespace AccessControl

/-! Instants and windows. -/

def RegularBound (bound : Option Instant) : Prop :=
  ∀ t, bound = some t → t.Regular

structure TimeWindow.Regular (w : TimeWindow) : Prop where
  starts : RegularBound w.startsAt
  ends : RegularBound w.endsAt

lemma Instant.eq_of_reads {t t' : Instant} {d : Document} (ht : t.Regular) (h : t.json.Reads d)
    (hd : Instant.ofDocument? d = some t') : t' = t := by
  obtain rfl : d = .text t.written := h
  exact eq_of_ofRelaxedText? ht hd

lemma eq_of_optional_instant {fields : List (String × Json)} {r : Record} {name : String}
    {bound bound' : Option Instant} (h : r.Of fields) (hbound : RegularBound bound)
    (hf : fields.lookup name = bound.map Instant.json)
    (hr : r.optional name Instant.ofDocument? = some bound') : bound' = bound :=
  h.eq_of_optional (fun t => by simp [Instant.json, Json.Reads])
    (fun t ht _ _ => Instant.eq_of_reads (hbound t ht)) hf hr

/-! Caveats. -/

namespace Caveat

structure Regular (c : Caveat) : Prop where
  window : ∀ w, c.window = some w → w.Regular
  values : ∀ r ∈ c.required, r.expected.Canonical

structure Codable (c : Caveat) : Prop where
  window : ∀ w, c.window = some w → w.Regular
  distinct : (c.required.map (·.key)).Nodup
  values : ∀ r ∈ c.required, r.expected.Canonical ∧ r.expected.Numbers Number.ReadsBack

lemma Codable.regular {c : Caveat} (hc : c.Codable) : c.Regular :=
  ⟨hc.window, fun r hr => (hc.values r hr).1⟩

structure Alike (c c' : Caveat) : Prop where
  window : c'.window.getD .unbounded = c.window.getD .unbounded
  required : ∀ r, r ∈ c'.required ↔ r ∈ c.required

structure ReadAs (c c' : Caveat) : Prop where
  window : c'.window.getD .unbounded = c.window.getD .unbounded
  forward : ∀ s e, (c.window.getD .unbounded).startsAt = some s →
    (c.window.getD .unbounded).endsAt = some e → s ≤ e
  required : c'.required =
    (Json.rereadFields (requiredObject c.required)).map fun f => ⟨f.1, f.2⟩
  columnGroups : c'.columnGroups = c.columnGroups

lemma exists_fields (c : Caveat) : ∃ fields, c.json = .object fields ∧
    fields.lookup "starts_at" = (c.window.getD .unbounded).startsAt.map (.string ·.writtenWithOffset) ∧
    fields.lookup "ends_at" = (c.window.getD .unbounded).endsAt.map (.string ·.writtenWithOffset) ∧
    fields.lookup "required_attributes" =
      (if requiredObject c.required = [] then none
        else some (.object (requiredObject c.required))) ∧
    fields.lookup "column_groups" =
      if c.columnGroups = [] then none else some (.array (c.columnGroups.map .string)) := by
  refine ⟨_, rfl, ?_, ?_, ?_, ?_⟩
  all_goals cases requiredObject c.required <;> cases c.columnGroups <;>
    simp [List.lookup_append, Json.lookup_field?, Json.lookup_cons]

lemma bound_of_reads {fields : List (String × Json)} {r : Record} {name : String}
    {bound : Option Instant} {draft : Option Json} {bound' : Option Instant} (h : r.Of fields)
    (hbound : RegularBound bound)
    (hf : fields.lookup name = bound.map (.string ·.writtenWithOffset))
    (hr : r.optional name Document.value? = some draft) (hb : Caveat.bound draft = .ok bound') :
    bound' = bound := by
  rcases h.optional hf hr with ⟨rfl, rfl⟩ | ⟨t, d, rfl, hd, hread⟩
  · exact (Except.ok.inj hb).symm
  · obtain ⟨j, rfl, hj⟩ := Document.orNull?_of_reads hd (by simp [Json.Reads]) hread
    obtain rfl : d = .text t.writtenWithOffset := hd
    obtain rfl := Option.some.inj hj
    simp only [Caveat.bound, instantOf] at hb
    split at hb
    · rename_i t' ht'
      rw [← Except.ok.inj hb, Instant.eq_of_ofStrictText (hbound t rfl) ht']
    · cases hb

def last? (required : List Requirement) (key : String) : Option Requirement :=
  required.reverse.find? (·.key == key)

lemma mem_requiredObject_iff {required : List Requirement} {f : String × Json} :
    f ∈ requiredObject required ↔ last? required f.1 = some ⟨f.1, f.2⟩ := by
  rw [requiredObject, Json.mem_orderFields_iff, ← List.map_reverse, List.find?_map,
    Option.map_eq_some_iff, last?]
  constructor
  · rintro ⟨x, hx, rfl⟩
    exact hx
  · exact fun hx => ⟨_, hx, rfl⟩

lemma exists_of_mem_requiredObject {required : List Requirement} {f : String × Json}
    (h : f ∈ requiredObject required) : ∃ x ∈ required, f = (x.key, x.expected) :=
  ⟨_, List.mem_reverse.mp (List.mem_of_find?_eq_some (mem_requiredObject_iff.mp h)), rfl⟩

lemma mem_requiredObject {required : List Requirement} (h : (required.map (·.key)).Nodup)
    {f : String × Json} :
    f ∈ requiredObject required ↔ ∃ x ∈ required, f = (x.key, x.expected) := by
  rw [requiredObject, Json.mem_orderFields (by simpa [Function.comp_def] using h)]
  simp [eq_comm]

lemma Regular.canonicalFields {c : Caveat} (hc : c.Regular) :
    Json.CanonicalFields (requiredObject c.required) := by
  rw [Json.canonicalFields_iff]
  intro f hf
  obtain ⟨x, hx, rfl⟩ := exists_of_mem_requiredObject hf
  exact hc.values x hx

lemma required_of_reads {c : Caveat} (hc : c.Regular) {fields : List (String × Json)} {r : Record}
    (h : r.Of fields) (hf : fields.lookup "required_attributes" =
      if requiredObject c.required = [] then none else some (.object (requiredObject c.required)))
    {required : List (String × Json)}
    (hr : r.withDefault "required_attributes" objectFields? [] = some required) :
    required = Json.rereadFields (requiredObject c.required) := by
  rcases h.withDefault hr with ⟨hn, rfl⟩ | ⟨j, d, hj, hd, hread⟩
  · rw [hn] at hf
    split at hf
    · rename_i he
      rw [he]
      rfl
    · cases hf
  · rw [hj] at hf
    split at hf
    · cases hf
    · obtain rfl := Option.some.inj hf
      rcases hd with rfl | ⟨ds, rfl, hd⟩
      · simp [objectFields?] at hread
      · rw [objectFields?, Option.map_eq_some_iff] at hread
        obtain ⟨fs, hfs, rfl⟩ := hread
        have hincreasing : Json.Increasing (Json.rereadFields (requiredObject c.required)) := by
          rw [Json.rereadFields_eq, Json.Increasing, List.map_map]
          exact Json.increasing_orderFields _
        rw [Json.reread_of_fieldValues? hd hc.canonicalFields hfs,
          Json.orderFields_of_increasing hincreasing]

lemma columnGroups_of_reads {c : Caveat} {fields : List (String × Json)} {r : Record}
    (h : r.Of fields) (hf : fields.lookup "column_groups" =
      if c.columnGroups = [] then none else some (.array (c.columnGroups.map .string)))
    {groups : List String}
    (hr : r.withDefault "column_groups" (Document.list? Document.text?) [] = some groups) :
    groups = c.columnGroups := by
  rcases h.withDefault hr with ⟨hn, rfl⟩ | ⟨j, d, hj, hd, hread⟩
  · rw [hn] at hf
    split at hf
    · rename_i he
      exact he.symm
    · cases hf
  · rw [hj] at hf
    split at hf
    · cases hf
    · obtain rfl := Option.some.inj hf
      have hmap := Document.map_of_reads (f := id) (g := id)
        (fun hx hy => Document.text?_of_reads hx hy) hd hread
      rwa [List.map_id, List.map_id] at hmap

def windowOf? (startsAt endsAt : Option Instant) : Option TimeWindow :=
  if startsAt.isSome || endsAt.isSome then some ⟨startsAt, endsAt⟩ else none

lemma windowOf?_getD (startsAt endsAt : Option Instant) :
    (windowOf? startsAt endsAt).getD .unbounded = ⟨startsAt, endsAt⟩ := by
  cases startsAt <;> cases endsAt <;> rfl

lemma ofDraft_ok_iff {draft : Draft} {c : Caveat} :
    ofDraft draft = .ok c ↔ ∃ startsAt endsAt, Caveat.bound draft.startsAt = .ok startsAt ∧
      Caveat.bound draft.endsAt = .ok endsAt ∧
      (∀ s e, startsAt = some s → endsAt = some e → s ≤ e) ∧
      c = ⟨windowOf? startsAt endsAt, draft.required.map (fun f => ⟨f.1, f.2⟩),
        draft.columnGroups⟩ := by
  rw [ofDraft]
  cases hs : Caveat.bound draft.startsAt with
  | error fault => simp [bind, Except.bind]
  | ok startsAt =>
    cases he : Caveat.bound draft.endsAt with
    | error fault => simp [bind, Except.bind]
    | ok endsAt =>
      simp only [bind, Except.bind, Except.ok.injEq, exists_and_left, exists_eq_left']
      split
      · rename_i s e
        split
        · rename_i hlt
          exact iff_of_false (by simp) fun h => Instant.not_lt.mpr (h.1 s e rfl rfl) hlt
        · rename_i hlt
          simp [Instant.not_lt.mp hlt, windowOf?, eq_comm]
      · rename_i hne
        have hforward : ∀ s e, startsAt = some s → endsAt = some e → s ≤ e := fun s e hs he =>
          (hne s e hs he).elim
        exact ⟨fun h => ⟨hforward, (Except.ok.inj h).symm⟩, fun h => h.2 ▸ rfl⟩

lemma ofDraft_ok {draft : Draft} {c : Caveat} (h : ofDraft draft = .ok c) :
    Caveat.bound draft.startsAt = .ok (c.window.getD .unbounded).startsAt ∧
      Caveat.bound draft.endsAt = .ok (c.window.getD .unbounded).endsAt ∧
      (∀ s e, (c.window.getD .unbounded).startsAt = some s →
        (c.window.getD .unbounded).endsAt = some e → s ≤ e) ∧
      c.required = (draft.required.map fun f => ⟨f.1, f.2⟩) ∧
      c.columnGroups = draft.columnGroups := by
  obtain ⟨startsAt, endsAt, hs, he, hforward, rfl⟩ := ofDraft_ok_iff.mp h
  simp only [windowOf?_getD]
  exact ⟨hs, he, hforward, trivial, trivial⟩

lemma readAs_of_reads {c c' : Caveat} (hc : c.Regular) {d : Document} (h : c.json.Reads d)
    (hd : Caveat.ofDocument? d = some c') : c.ReadAs c' := by
  obtain ⟨fields, hjson, hstarts, hends, hrequired, hgroups⟩ := c.exists_fields
  rw [hjson] at h
  rw [Caveat.ofDocument?] at hd
  split at hd
  · rename_i draft hdraft
    obtain ⟨r, hr, hdraft⟩ := Option.bind_eq_some_iff.mp hdraft
    have hof := Record.Of.of_record? h hr
    simp only [Option.bind_eq_bind, Option.bind_eq_some_iff, Option.pure_def] at hdraft
    obtain ⟨startsAt, hs, endsAt, he, required, hreq, columnGroups, hgr, hdraft⟩ := hdraft
    obtain rfl := Option.some.inj hdraft
    have hwindow : (c.window.getD .unbounded).Regular := by
      cases hw : c.window with
      | none => exact ⟨by simp [RegularBound, TimeWindow.unbounded],
          by simp [RegularBound, TimeWindow.unbounded]⟩
      | some w => exact hc.window w hw
    cases hok : ofDraft ⟨startsAt, endsAt, required, columnGroups⟩ with
    | error fault => simp [hok, Except.toOption] at hd
    | ok c'' =>
      obtain rfl : c'' = c' := by simpa [hok, Except.toOption] using hd
      obtain ⟨hs', he', hforward, hreq', hgr'⟩ := ofDraft_ok hok
      have hs'' := bound_of_reads hof hwindow.starts hstarts hs hs'
      have he'' := bound_of_reads hof hwindow.ends hends he he'
      rw [hs'', he''] at hforward
      refine ⟨?_, hforward, ?_, ?_⟩
      · cases hw : c''.window.getD .unbounded
        cases hw' : c.window.getD .unbounded
        simp_all
      · rw [hreq', required_of_reads hc hof hrequired hreq]
      · rw [hgr', columnGroups_of_reads hof hgroups hgr]
  · cases hd

lemma ReadAs.alike {c c' : Caveat} (h : c.ReadAs c') (hc : c.Codable) : c.Alike c' := by
  have hnumbers : Json.NumbersFields Number.ReadsBack (requiredObject c.required) := by
    rw [Json.numbersFields_iff]
    intro f hf
    obtain ⟨x, hx, rfl⟩ := exists_of_mem_requiredObject hf
    exact (hc.values x hx).2
  refine ⟨h.window, fun x => ?_⟩
  rw [h.required, Json.rereadFields_of_readsBack hnumbers, List.mem_map]
  simp only [mem_requiredObject hc.distinct]
  constructor
  · rintro ⟨f, ⟨y, hy, rfl⟩, rfl⟩
    exact hy
  · exact fun hx => ⟨_, ⟨x, hx, rfl⟩, rfl⟩

end Caveat

lemma Store.CaveatPasses.alike {s : Store} {b b' : Binding} {principal : String} {now : Instant}
    (ho : b'.organization = b.organization)
    (hc : (b.caveat = none ∧ b'.caveat = none) ∨
      ∃ c c', b.caveat = some c ∧ b'.caveat = some c' ∧ c.Alike c') :
    s.CaveatPasses b principal now ↔ s.CaveatPasses b' principal now := by
  rcases hc with ⟨hb, hb'⟩ | ⟨c, c', hb, hb', ha⟩
  · simp [CaveatPasses, hb, hb']
  · have hw : ∀ c : Caveat, (∀ w, c.window = some w → w.contains now = true) ↔
        (c.window.getD .unbounded).contains now = true := by
      intro c
      cases c.window <;> simp [TimeWindow.contains, TimeWindow.unbounded]
    simp only [CaveatPasses, hb, hb', Option.some.injEq, forall_eq', hw, ha.window, ho,
      CaveatCheck.Meets, ha.required]

/-! Bindings. -/

lemma BindingTarget.eq_of_reads {target target' : BindingTarget} {d : Document}
    (h : target.json.Reads d) (hd : BindingTarget.ofDocument? d = some target') :
    target' = target := by
  cases target with
  | role | permission =>
    rcases h with rfl | ⟨ds, rfl, d, rest, rfl, rfl, d', rest', rfl, rfl, rfl⟩
    · simp [ofDocument?, Document.record?] at hd
    · exact (Option.some.inj hd).symm

namespace Binding

lemma exists_fields (b : Binding) : ∃ fields, b.json = .object fields ∧
    fields.lookup "id" = some (.string b.id) ∧
    fields.lookup "target" = some b.target.json ∧
    fields.lookup "resource_type" = some (.string b.resourceType) ∧
    fields.lookup "resource_id" = b.resource.map .string ∧
    fields.lookup "organization_id" = some (.string b.organization) ∧
    fields.lookup "caveat" = b.caveat.map Caveat.json := by
  refine ⟨_, rfl, ?_, ?_, ?_, ?_, ?_, ?_⟩ <;>
    simp [List.lookup_append, Json.lookup_field?, Json.lookup_cons]

structure ReadAs (b b' : Binding) : Prop where
  id : b'.id = b.id
  target : b'.target = b.target
  resourceType : b'.resourceType = b.resourceType
  resource : b'.resource = b.resource
  organization : b'.organization = b.organization
  caveat : (b.caveat = none ∧ b'.caveat = none) ∨
    ∃ c c', b.caveat = some c ∧ b'.caveat = some c' ∧ c.ReadAs c'

lemma readAs_of_reads {b b' : Binding} (hc : ∀ c, b.caveat = some c → c.Regular) {d : Document}
    (h : b.json.Reads d) (hd : Binding.ofDocument? d = some b') : b.ReadAs b' := by
  obtain ⟨fields, hjson, hid, htarget, htype, hresource, horganization, hcaveat⟩ := b.exists_fields
  rw [hjson] at h
  obtain ⟨r, hr, hd⟩ := Option.bind_eq_some_iff.mp hd
  have hof := Record.Of.of_record? h hr
  simp only [Option.bind_eq_bind, Option.bind_eq_some_iff, Option.pure_def] at hd
  obtain ⟨id, hi, _, -, _, -, target, ht, type, hty, resource, hre, organization, ho, caveat, hca,
    _, -, _, -, _, -, hd⟩ := hd
  obtain rfl := Option.some.inj hd
  refine ⟨hof.eq_of_required Document.text?_of_reads hid hi,
    hof.eq_of_required BindingTarget.eq_of_reads htarget ht,
    hof.eq_of_required Document.text?_of_reads htype hty,
    hof.eq_of_optional (by simp [Json.Reads]) (fun _ _ _ _ => Document.text?_of_reads) hresource hre,
    hof.eq_of_required Document.text?_of_reads horganization ho, ?_⟩
  rcases hof.optional hcaveat hca with ⟨hn, rfl⟩ | ⟨c, d, hcb, hcd, hread⟩
  · exact Or.inl ⟨hn, rfl⟩
  · obtain ⟨c', rfl, hc'⟩ :=
      Document.orNull?_of_reads hcd (by simp [Caveat.json, Json.Reads]) hread
    exact Or.inr ⟨c, c', hcb, rfl, Caveat.readAs_of_reads (hc c hcb) hcd hc'⟩

lemma ReadAs.alike {b b' : Binding} (h : b.ReadAs b')
    (hc : ∀ c, b.caveat = some c → c.Codable) :
    b.Alike b' ∧ RegularBound (b'.caveat.bind (·.endsAt)) := by
  have hcaveat : (b.caveat = none ∧ b'.caveat = none) ∨
      ∃ c c', b.caveat = some c ∧ b'.caveat = some c' ∧ c.Alike c' := by
    refine h.caveat.imp_right ?_
    rintro ⟨c, c', hb, hb', hread⟩
    exact ⟨c, c', hb, hb', hread.alike (hc c hb)⟩
  refine ⟨⟨h.target.symm, h.resourceType.symm, h.resource.symm, h.organization.symm,
    Store.CaveatPasses.alike h.organization hcaveat⟩, ?_⟩
  rcases hcaveat with ⟨-, hb'⟩ | ⟨c, c', hb, hb', ha⟩
  · simp [RegularBound, hb']
  · have hends : c'.endsAt = (c'.window.getD .unbounded).endsAt := by
      cases hw : c'.window <;> simp [Caveat.endsAt, hw, TimeWindow.unbounded]
    intro t ht
    rw [hb', Option.bind_some, hends, ha.window] at ht
    cases hw : c.window with
    | none => simp [hw, TimeWindow.unbounded] at ht
    | some w => exact ((hc c hb).window w hw).ends t (by simpa [hw] using ht)

end Binding

/-! Role sets. -/

lemma Role.id_of_reads {role role' : Role} {d : Document} (h : role.json.Reads d)
    (hd : Role.ofDocument? d = some role') : role'.id = role.id := by
  obtain ⟨r, hr, hd⟩ := Option.bind_eq_some_iff.mp hd
  have hof := Record.Of.of_record? h hr
  simp only [Option.bind_eq_bind, Option.bind_eq_some_iff, Option.pure_def] at hd
  obtain ⟨id, hid, _, -, _, -, _, -, _, -, _, -, _, -, _, -, _, -, _, -, hd⟩ := hd
  obtain rfl := Option.some.inj hd
  exact hof.eq_of_required Document.text?_of_reads rfl hid

lemma EffectiveRole.id_of_reads {x y : EffectiveRole} {d : Document} (h : x.json.Reads d)
    (hd : EffectiveRole.ofDocument? d = some y) : y.role.id = x.role.id := by
  obtain ⟨r, hr, hd⟩ := Option.bind_eq_some_iff.mp hd
  have hof := Record.Of.of_record? h hr
  simp only [Option.bind_eq_bind, Option.bind_eq_some_iff, Option.pure_def] at hd
  obtain ⟨role, hrole, _, -, _, -, hd⟩ := hd
  obtain rfl := Option.some.inj hd
  obtain ⟨dr, hdr, hrole⟩ := hof.required (j := x.role.json) rfl hrole
  exact Role.id_of_reads hdr hrole

lemma EffectiveRole.ids_of_reads {xs ys : List EffectiveRole} {d : Document}
    (h : (Json.array (xs.map EffectiveRole.json)).Reads d)
    (hd : d.list? EffectiveRole.ofDocument? = some ys) :
    ys.map (·.role.id) = xs.map (·.role.id) :=
  Document.map_of_reads EffectiveRole.id_of_reads h hd

structure ConditionalGrant.Alike (g g' : ConditionalGrant) : Prop where
  binding : g.binding.Alike g'.binding
  ids : g'.roles.map (·.role.id) = g.roles.map (·.role.id)
  ends : RegularBound (g'.binding.caveat.bind (·.endsAt))

lemma ConditionalGrant.parts_of_reads {g g' : ConditionalGrant} {d : Document}
    (h : g.json.Reads d) (hd : ConditionalGrant.ofDocument? d = some g') :
    (∃ d, g.binding.json.Reads d ∧ Binding.ofDocument? d = some g'.binding) ∧
      ∃ d, (Json.array (g.roles.map EffectiveRole.json)).Reads d ∧
        d.list? EffectiveRole.ofDocument? = some g'.roles := by
  obtain ⟨r, hr, hd⟩ := Option.bind_eq_some_iff.mp hd
  have hof := Record.Of.of_record? h hr
  simp only [Option.bind_eq_bind, Option.bind_eq_some_iff, Option.pure_def] at hd
  obtain ⟨binding, hbinding, roles, hroles, hd⟩ := hd
  obtain rfl := Option.some.inj hd
  exact ⟨hof.required rfl hbinding, hof.required rfl hroles⟩

lemma ConditionalGrant.alike_of_reads {g g' : ConditionalGrant}
    (hc : ∀ c, g.binding.caveat = some c → c.Codable) {d : Document} (h : g.json.Reads d)
    (hd : ConditionalGrant.ofDocument? d = some g') : g.Alike g' := by
  obtain ⟨⟨db, hdb, hbinding⟩, dr, hdr, hroles⟩ := parts_of_reads h hd
  obtain ⟨halike, hends⟩ :=
    (Binding.readAs_of_reads (fun c hb => (hc c hb).regular) hdb hbinding).alike hc
  exact ⟨halike, EffectiveRole.ids_of_reads hdr hroles, hends⟩

namespace EffectiveRoles

def Codable (e : EffectiveRoles) : Prop :=
  ∀ g ∈ e.conditional, ∀ c, g.binding.caveat = some c → c.Codable

structure Alike (e e' : EffectiveRoles) : Prop where
  ids : e'.ids = e.ids
  conditional : List.Forall₂ ConditionalGrant.Alike e.conditional e'.conditional
  validUntil : RegularBound e.validUntil → e'.validUntil = e.validUntil

lemma parts_of_reads {e e' : EffectiveRoles} {d : Document} (h : e.json.Reads d)
    (hd : EffectiveRoles.ofDocument? d = some e') :
    (∃ d, (Json.array (e.roles.map EffectiveRole.json)).Reads d ∧
      d.list? EffectiveRole.ofDocument? = some e'.roles) ∧
    (∃ d, (Json.array (e.conditional.map ConditionalGrant.json)).Reads d ∧
      d.list? ConditionalGrant.ofDocument? = some e'.conditional) ∧
    e'.truncated = e.truncated ∧ (RegularBound e.validUntil → e'.validUntil = e.validUntil) := by
  obtain ⟨r, hr, hd⟩ := Option.bind_eq_some_iff.mp hd
  have hof := Record.Of.of_record? h hr
  simp only [Option.bind_eq_bind, Option.bind_eq_some_iff, Option.pure_def] at hd
  obtain ⟨roles, hroles, conditional, hcond, truncated, ht, validUntil, hv, hd⟩ := hd
  obtain rfl := Option.some.inj hd
  exact ⟨hof.required rfl hroles, hof.required rfl hcond,
    hof.eq_of_required Document.bool?_of_reads rfl ht,
    fun he => eq_of_optional_instant hof he (by simp [Json.lookup_cons, Json.lookup_field?]) hv⟩

lemma alike_of_reads {e e' : EffectiveRoles} (he : e.Codable) {d : Document}
    (h : e.json.Reads d) (hd : EffectiveRoles.ofDocument? d = some e') : e.Alike e' := by
  obtain ⟨⟨dr, hdr, hroles⟩, ⟨dc, hdc, hcond⟩, -, hv⟩ := parts_of_reads h hd
  refine ⟨EffectiveRole.ids_of_reads hdr hroles, ?_, hv⟩
  exact Document.list?_of_reads
    (fun g hg _ _ => ConditionalGrant.alike_of_reads (he g hg)) hdc hcond

lemma alike_of_ofText? {e e' : EffectiveRoles} (he : e.Codable)
    (h : ofText? e.json.written = some e') : e.Alike e' := by
  obtain ⟨d, hd, h⟩ := Option.bind_eq_some_iff.mp h
  exact alike_of_reads he (Json.reads_of_written hd) h

lemma Alike.names {e e' : EffectiveRoles} (h : e.Alike e') : e'.names = e.names := by
  have hconditional : ∀ {xs ys : List ConditionalGrant}, List.Forall₂ ConditionalGrant.Alike xs ys →
      (ys.flatMap (·.roles)).map (·.role.id) = (xs.flatMap (·.roles)).map (·.role.id) := by
    intro xs ys h
    induction h with
    | nil => rfl
    | cons hg _ ih =>
      rw [List.flatMap_cons, List.flatMap_cons, List.map_append, List.map_append, hg.ids, ih]
  have hids : e'.roles.map (·.role.id) = e.roles.map (·.role.id) := h.ids
  rw [EffectiveRoles.names, all, List.map_append, hconditional h.conditional, hids,
    ← List.map_append]
  rfl

lemma exists_alike {xs ys : List ConditionalGrant} (h : List.Forall₂ ConditionalGrant.Alike xs ys) :
    (∀ g ∈ xs, ∃ g' ∈ ys, g.Alike g') ∧ ∀ g' ∈ ys, ∃ g ∈ xs, g.Alike g' := by
  induction h with
  | nil => simp
  | cons hg _ ih =>
    constructor
    · intro x hx
      rcases List.mem_cons.mp hx with rfl | hx
      · exact ⟨_, List.mem_cons_self, hg⟩
      · obtain ⟨y, hy, ha⟩ := ih.1 x hx
        exact ⟨y, List.mem_cons_of_mem _ hy, ha⟩
    · intro y hy
      rcases List.mem_cons.mp hy with rfl | hy
      · exact ⟨_, List.mem_cons_self, hg⟩
      · obtain ⟨x, hx, ha⟩ := ih.2 y hy
        exact ⟨x, List.mem_cons_of_mem _ hx, ha⟩

lemma Alike.under {e e' : EffectiveRoles} (h : e.Alike e') : e.Under e' := by
  refine ⟨fun id hid => h.ids ▸ hid, fun g hg => ?_⟩
  obtain ⟨g', hg', ha⟩ := (exists_alike h.conditional).1 g hg
  exact ⟨g', hg', ha.binding, fun id hid => ha.ids ▸ hid⟩

lemma Alike.over {e e' : EffectiveRoles} (h : e.Alike e') : e'.Under e := by
  refine ⟨fun id hid => h.ids ▸ hid, fun g' hg' => ?_⟩
  obtain ⟨g, hg, ha⟩ := (exists_alike h.conditional).2 g' hg'
  exact ⟨g, hg, ha.binding.symm, fun id hid => ha.ids ▸ hid⟩

end EffectiveRoles

/-! Decisions. -/

namespace Decision

lemma exists_fields (d : Decision) : ∃ fields, d.json = .object fields ∧
    (fields.map (·.1)).Nodup ∧
    fields.lookup "id" = some (.string d.id) ∧
    fields.lookup "allowed" = some (.bool d.allowed) ∧
    fields.lookup "reason" = some (.string d.reason) ∧
    fields.lookup "matched_via" = d.via.map .string ∧
    fields.lookup "model" = d.model.map (fun m => .string m.word) ∧
    fields.lookup "binding_id" = d.binding.map .string ∧
    fields.lookup "effective_roles" = some (.array (d.roles.map RoleSummary.json)) ∧
    fields.lookup "column_groups" =
      (if d.columnGroups = [] then none else some (.array (d.columnGroups.map .string))) ∧
    fields.lookup "trace" = some (.array (d.trace.map .string)) ∧
    fields.lookup "cache_hit" = some (.bool d.cacheHit) ∧
    fields.lookup "evaluated_at" = some d.evaluatedAt.json ∧
    fields.lookup "evaluation_duration" = some d.duration.json ∧
    fields.lookup "valid_until" = d.validUntil.map Instant.json := by
  refine ⟨_, rfl, ?_, ?_⟩
  · cases d.via <;> cases d.model <;> cases d.binding <;> cases d.columnGroups <;>
      cases d.validUntil <;> simp [Json.field?]
  · cases d.columnGroups <;> simp [List.lookup_append, Json.lookup_field?, Json.lookup_cons]

structure ReadFrom (d : Decision) (r : Record) : Prop where
  id : r.required "id" Document.text? = some d.id
  allowed : r.required "allowed" Document.bool? = some d.allowed
  reason : r.required "reason" Document.text? = some d.reason
  via : r.optional "matched_via" Document.text? = some d.via
  model : r.optional "model" (Document.choice? GrantModel.words) = some d.model
  binding : r.optional "binding_id" Document.text? = some d.binding
  roles : r.withDefault "effective_roles" (Document.list? RoleSummary.ofDocument?) [] =
    some d.roles
  columnGroups : r.withDefault "column_groups" (Document.list? Document.text?) [] =
    some d.columnGroups
  trace : r.withDefault "trace" (Document.list? Document.text?) [] = some d.trace
  cacheHit : r.withDefault "cache_hit" Document.bool? false = some d.cacheHit
  evaluatedAt : r.required "evaluated_at" Instant.ofDocument? = some d.evaluatedAt
  duration : r.required "evaluation_duration" Duration.ofDocument? = some d.duration
  validUntil : r.optional "valid_until" Instant.ofDocument? = some d.validUntil

lemma ofDocument?_eq_some_iff {document : Document} {d : Decision} :
    ofDocument? document = some d ↔ ∃ r, document.record? ["id", "allowed", "reason",
      "matched_via", "model", "binding_id", "effective_roles", "column_groups", "trace",
      "cache_hit", "evaluated_at", "evaluation_duration", "valid_until"] = some r ∧
        d.ReadFrom r := by
  constructor
  · intro h
    obtain ⟨r, hr, h⟩ := Option.bind_eq_some_iff.mp h
    obtain ⟨id, hid, h⟩ := Option.bind_eq_some_iff.mp h
    obtain ⟨allowed, hallowed, h⟩ := Option.bind_eq_some_iff.mp h
    obtain ⟨reason, hreason, h⟩ := Option.bind_eq_some_iff.mp h
    obtain ⟨via, hvia, h⟩ := Option.bind_eq_some_iff.mp h
    obtain ⟨model, hmodel, h⟩ := Option.bind_eq_some_iff.mp h
    obtain ⟨binding, hbinding, h⟩ := Option.bind_eq_some_iff.mp h
    obtain ⟨roles, hroles, h⟩ := Option.bind_eq_some_iff.mp h
    obtain ⟨groups, hgroups, h⟩ := Option.bind_eq_some_iff.mp h
    obtain ⟨trace, htrace, h⟩ := Option.bind_eq_some_iff.mp h
    obtain ⟨hit, hhit, h⟩ := Option.bind_eq_some_iff.mp h
    obtain ⟨instant, hinstant, h⟩ := Option.bind_eq_some_iff.mp h
    obtain ⟨duration, hduration, h⟩ := Option.bind_eq_some_iff.mp h
    obtain ⟨validUntil, hvalid, h⟩ := Option.bind_eq_some_iff.mp h
    obtain rfl := Option.some.inj h
    exact ⟨r, hr, hid, hallowed, hreason, hvia, hmodel, hbinding, hroles, hgroups, htrace, hhit,
      hinstant, hduration, hvalid⟩
  · rintro ⟨r, hr, h⟩
    rw [ofDocument?, hr, Option.bind_eq_bind, Option.bind_some, h.id, h.allowed, h.reason, h.via,
      h.model, h.binding, h.roles, h.columnGroups, h.trace, h.cacheHit, h.evaluatedAt, h.duration,
      h.validUntil]
    rfl

end Decision

lemma RoleSummary.id_of_reads {x y : RoleSummary} {d : Document} (h : x.json.Reads d)
    (hd : RoleSummary.ofDocument? d = some y) : y.id = x.id := by
  obtain ⟨r, hr, hd⟩ := Option.bind_eq_some_iff.mp hd
  have hof := Record.Of.of_record? h hr
  simp only [Option.bind_eq_bind, Option.bind_eq_some_iff, Option.pure_def] at hd
  obtain ⟨id, hid, _, -, _, -, _, -, hd⟩ := hd
  obtain rfl := Option.some.inj hd
  exact hof.eq_of_required Document.text?_of_reads rfl hid

namespace Decision

structure Alike (x y : Decision) : Prop where
  allowed : y.allowed = x.allowed
  roleIds : y.roleIds = x.roleIds
  validUntil : RegularBound x.validUntil → y.validUntil = x.validUntil

lemma alike_of_reads {x y : Decision} {d : Document} (h : x.json.Reads d)
    (hd : Decision.ofDocument? d = some y) : x.Alike y := by
  obtain ⟨fields, hjson, -, -, hallowed, -, -, -, -, hroles, -, -, -, -, -, hvalid⟩ :=
    x.exists_fields
  rw [hjson] at h
  obtain ⟨r, hr, hy⟩ := ofDocument?_eq_some_iff.mp hd
  have hof := Record.Of.of_record? h hr
  refine ⟨?_, ?_, fun hx => eq_of_optional_instant hof hx hvalid hy.validUntil⟩
  · exact hof.eq_of_required Document.bool?_of_reads hallowed hy.allowed
  · rcases hof.withDefault hy.roles with ⟨hn, -⟩ | ⟨j, dr, hj, hdr, hread⟩
    · simp [hn] at hroles
    · obtain rfl := Option.some.inj (hj.symm.trans hroles)
      exact Document.map_of_reads RoleSummary.id_of_reads hdr hread

lemma alike_of_ofText? {x y : Decision} (h : ofText? x.json.written = some y) : x.Alike y := by
  obtain ⟨d, hd, h⟩ := Option.bind_eq_some_iff.mp h
  exact alike_of_reads (Json.reads_of_written hd) h

end Decision

end AccessControl
