import AccessControl.Proofs.CachedTexts

/-! Verdicts on caveats. What the text of a caveat is read as gets the verdicts of the caveat exactly
when, for every key, the last requirement as it is read back asks for what all of them together ask
for. If it does not, a principal with one attribute for each key can tell. -/

namespace AccessControl

namespace Store

def verdict (s : Store) (b : Binding) (principal : String) (ctx : Context) :
    Except Fault (Bool × List String) :=
  (s.checkCaveat b principal ctx).map fun o => (o.passed, o.columnGroups)

lemma map_read {α β : Type} (s : Store) (answer : α) (f : α → β) :
    (s.read answer).map f = s.read (f answer) := by
  simp only [read, call]
  split <;> rfl

end Store

def Binding.SameVerdicts (b b' : Binding) : Prop :=
  ∀ (s : Store) (principal : String) (ctx : Context),
    s.verdict b' principal ctx = s.verdict b principal ctx

namespace CaveatCheck

variable {provided : List Attribute} {required required' : List Requirement} {key : String}
  {value : Json}

def Admits (required : List Requirement) (key : String) (value : Json) : Prop :=
  ∀ r ∈ required, r.key = key → r.expected.agrees value = true

lemma isOk_checkAttributes (bound : Option Instant) :
    (checkAttributes provided required bound).isOk = true ↔ Meets provided required := by
  rw [← @checkAttributes_ok provided required bound]
  cases checkAttributes provided required bound <;> simp [Except.isOk, Except.toBool]

lemma meets_iff : Meets provided required ↔ ∀ key ∈ required.map (·.key),
    ∃ a, choose provided key = some a ∧ Admits required key a.value := by
  simp only [List.forall_mem_map]
  constructor
  · intro h r hr
    obtain ⟨a, ha, -⟩ := h r hr
    refine ⟨a, ha, fun r' hr' hk => ?_⟩
    obtain ⟨a', ha', hagrees⟩ := h r' hr'
    rw [hk, ha] at ha'
    rwa [← Option.some.inj ha'] at hagrees
  · intro h r hr
    obtain ⟨a, ha, hadmits⟩ := h r hr
    exact ⟨a, ha, hadmits r hr rfl⟩

lemma meets_congr (hkeys : ∀ key, key ∈ required.map (·.key) ↔ key ∈ required'.map (·.key))
    (h : ∀ key value, Admits required key value ↔ Admits required' key value) :
    Meets provided required ↔ Meets provided required' := by
  simp only [meets_iff, hkeys, h]

end CaveatCheck

open CaveatCheck (Admits)

lemma Store.verdict_eq {s : Store} {b : Binding} {c : Caveat} (hb : b.caveat = some c)
    (principal : String) (ctx : Context) : s.verdict b principal ctx =
      if (c.window.getD .unbounded).contains ctx.now then
        if c.required.isEmpty then .ok (true, c.columnGroups)
        else s.read (if (CaveatCheck.checkAttributes
          (CaveatCheck.candidates s principal b.organization ctx.now) c.required none).isOk
            then (true, c.columnGroups) else (false, []))
      else .ok (false, []) := by
  have hwindow : c.window.bind (CaveatCheck.windowFault · ctx.now) = none ↔
      (c.window.getD .unbounded).contains ctx.now = true := by
    cases c.window with
    | none => simp [TimeWindow.contains, TimeWindow.unbounded]
    | some w => exact CaveatCheck.windowFault_eq_none
  rw [verdict, checkCaveat, hb]
  simp only
  split
  · rename_i reason hf
    rw [if_neg (fun h => by simp [hwindow.mpr h] at hf)]
    rfl
  · rename_i hf
    rw [if_pos (hwindow.mp hf)]
    split
    · rfl
    · rw [map_read, CaveatCheck.checkRequired]
      cases CaveatCheck.checkAttributes _ c.required none <;> rfl

namespace Caveat

/-- For every key, the last requirement as its text is read admits the values that all requirements
admit. -/
def Survives (c : Caveat) : Prop :=
  ∀ key value, Admits c.required key value ↔
    ∀ r, last? c.required key = some r → r.expected.reread.agrees value = true

variable {c c' : Caveat} {b b' : Binding} {key : String} {value : Json}

lemma last?_key {r : Requirement} (h : last? c.required key = some r) : r.key = key := by
  simpa using List.find?_some h

lemma exists_last? (h : key ∈ c.required.map (·.key)) : ∃ r, last? c.required key = some r := by
  obtain ⟨r, hr, hk⟩ := List.mem_map.mp h
  refine Option.isSome_iff_exists.mp (List.find?_isSome.mpr ⟨r, List.mem_reverse.mpr hr, ?_⟩)
  simpa using hk

lemma ReadAs.mem_required (h : c.ReadAs c') {r : Requirement} : r ∈ c'.required ↔
    ∃ x, last? c.required r.key = some x ∧ r.expected = x.expected.reread := by
  rw [h.required, Json.rereadFields_eq, List.map_map, List.mem_map]
  constructor
  · rintro ⟨f, hf, rfl⟩
    exact ⟨_, mem_requiredObject_iff.mp hf, rfl⟩
  · rintro ⟨x, hx, he⟩
    refine ⟨(r.key, x.expected), mem_requiredObject_iff.mpr (hx.trans ?_), ?_⟩
    · rw [← last?_key hx]
    · simp only [Function.comp_apply, ← he]

lemma ReadAs.admits_iff (h : c.ReadAs c') : Admits c'.required key value ↔
    ∀ r, last? c.required key = some r → r.expected.reread.agrees value = true := by
  constructor
  · intro hadmits r hr
    exact hadmits ⟨key, r.expected.reread⟩ (h.mem_required.mpr ⟨r, hr, rfl⟩) rfl
  · rintro hlast r hr rfl
    obtain ⟨x, hx, he⟩ := h.mem_required.mp hr
    rw [he]
    exact hlast x hx

lemma ReadAs.keys (h : c.ReadAs c') (key : String) :
    key ∈ c'.required.map (·.key) ↔ key ∈ c.required.map (·.key) := by
  constructor
  · intro hk
    obtain ⟨r, hr, rfl⟩ := List.mem_map.mp hk
    obtain ⟨x, hx, -⟩ := h.mem_required.mp hr
    exact List.mem_map.mpr ⟨x, List.mem_reverse.mp (List.mem_of_find?_eq_some hx), last?_key hx⟩
  · intro hk
    obtain ⟨x, hx⟩ := exists_last? hk
    exact List.mem_map.mpr ⟨⟨key, x.expected.reread⟩, h.mem_required.mpr ⟨x, hx, rfl⟩, rfl⟩

lemma ReadAs.isEmpty (h : c.ReadAs c') : c'.required.isEmpty = c.required.isEmpty := by
  have hkeys : c'.required.map (·.key) = [] ↔ c.required.map (·.key) = [] := by
    simp only [List.eq_nil_iff_forall_not_mem, h.keys]
  rw [List.map_eq_nil_iff, List.map_eq_nil_iff] at hkeys
  rw [Bool.eq_iff_iff, List.isEmpty_iff, List.isEmpty_iff, hkeys]

lemma Survives.sameVerdicts (hc : c.Survives) (h : c.ReadAs c') (hb : b.caveat = some c)
    (hb' : b'.caveat = some c') (ho : b'.organization = b.organization) : b.SameVerdicts b' := by
  intro s principal ctx
  have hok : ∀ provided,
      (CaveatCheck.checkAttributes provided c'.required none).isOk =
        (CaveatCheck.checkAttributes provided c.required none).isOk := by
    intro provided
    rw [Bool.eq_iff_iff, CaveatCheck.isOk_checkAttributes, CaveatCheck.isOk_checkAttributes]
    exact CaveatCheck.meets_congr h.keys fun key value => h.admits_iff.trans (hc key value).symm
  rw [Store.verdict_eq hb, Store.verdict_eq hb', h.window, h.isEmpty, h.columnGroups, ho, hok]

end Caveat

namespace Store

def providing (keys : List String) (value : String → Json) : Store :=
  { Store.empty with attributes := keys.map fun key => .ofPrincipal key "anyone" key (value key) }

variable {keys : List String} {value : String → Json} {organization key : String} {now : Instant}

lemma choose_providing (h : key ∈ keys) : ∃ a, CaveatCheck.choose
    (CaveatCheck.candidates (providing keys value) "anyone" organization now) key = some a ∧
      a.value = value key := by
  have hprovides : (providing keys value).Provides "anyone" organization now key
      (.ofPrincipal key "anyone" key (value key)) :=
    ⟨List.mem_map_of_mem h, rfl, rfl, rfl, rfl, by simp [Attribute.ofPrincipal],
      by simp [Attribute.ofPrincipal]⟩
  obtain ⟨hcandidate, -⟩ := CaveatCheck.mem_candidates.mpr hprovides
  obtain ⟨a, ha⟩ := Option.isSome_iff_exists.mp (List.find?_isSome.mpr
    ⟨_, List.mem_reverse.mpr hcandidate, by simp [Attribute.ofPrincipal]⟩ :
      (CaveatCheck.choose _ key).isSome = true)
  refine ⟨a, ha, ?_⟩
  obtain ⟨⟨hmem, -, -, hk, -⟩, -⟩ := CaveatCheck.choose_spec ha
  obtain ⟨key', -, rfl⟩ := List.mem_map.mp hmem
  obtain rfl : key' = key := hk
  rfl

lemma verdict_providing {b : Binding} {c : Caveat} (hb : b.caveat = some c) (ctx : Context)
    (hnow : (c.window.getD .unbounded).contains ctx.now = true)
    (hkeys : ∀ key, key ∈ c.required.map (·.key) → key ∈ keys) :
    (providing keys value).verdict b "anyone" ctx = .ok (true, c.columnGroups) ↔
      ∀ key, Admits c.required key (value key) := by
  have hmeets : CaveatCheck.Meets
      (CaveatCheck.candidates (providing keys value) "anyone" b.organization ctx.now) c.required ↔
        ∀ key, Admits c.required key (value key) := by
    rw [CaveatCheck.meets_iff]
    constructor
    · rintro h key r hr rfl
      obtain ⟨a, ha, hadmits⟩ := h r.key (List.mem_map_of_mem hr)
      obtain ⟨a', ha', hvalue⟩ := choose_providing (hkeys r.key (List.mem_map_of_mem hr))
      rw [ha] at ha'
      rw [← hvalue, ← Option.some.inj ha']
      exact hadmits r hr rfl
    · intro h key hk
      obtain ⟨a, ha, hvalue⟩ := choose_providing (hkeys key hk)
      exact ⟨a, ha, hvalue ▸ h key⟩
  rw [verdict_eq hb, if_pos hnow, read_of_available rfl, ← hmeets,
    ← CaveatCheck.isOk_checkAttributes none]
  split
  · rename_i he
    rw [List.isEmpty_iff] at he
    simp [he, CaveatCheck.checkAttributes, Except.isOk, Except.toBool]
  · split <;> simp_all

end Store

namespace Caveat

variable {c c' : Caveat} {b b' : Binding}

lemma ReadAs.exists_instant (h : c.ReadAs c') :
    ∃ now, (c.window.getD .unbounded).contains now = true := by
  have hforward := h.forward
  revert hforward
  generalize c.window.getD .unbounded = w
  obtain ⟨startsAt, endsAt⟩ := w
  intro hforward
  cases startsAt with
  | some s =>
    refine ⟨s, ?_⟩
    cases endsAt with
    | some e => simp [TimeWindow.contains, Instant.le_refl, hforward s e rfl rfl]
    | none => simp [TimeWindow.contains, Instant.le_refl]
  | none =>
    cases endsAt with
    | some e => exact ⟨e, by simp [TimeWindow.contains, Instant.le_refl]⟩
    | none => exact ⟨⟨0, 0⟩, rfl⟩

lemma survives_of_sameVerdicts (h : c.ReadAs c') (hb : b.caveat = some c)
    (hb' : b'.caveat = some c') (hv : b.SameVerdicts b') : c.Survives := by
  obtain ⟨now, hnow⟩ := h.exists_instant
  let ctx : Context := ⟨none, none, now⟩
  have hpasses : ∀ value : String → Json,
      (∀ key, Admits c.required key (value key)) ↔ ∀ key, Admits c'.required key (value key) := by
    intro value
    rw [← Store.verdict_providing hb ctx hnow fun key hk => hk,
      ← Store.verdict_providing hb' ctx (h.window ▸ hnow) fun key => (h.keys key).mp,
      hv, h.columnGroups]
  let own (key : String) : Json :=
    match last? c.required key with
    | some r => r.expected.reread
    | none => .null
  have hown' : ∀ key, Admits c'.required key (own key) := by
    intro key
    rw [h.admits_iff]
    intro r hr
    simp [own, hr, Json.agrees]
  have hown := (hpasses own).mpr hown'
  -- With one value changed, both admit it or both do not.
  intro key value
  rw [← h.admits_iff]
  have hupdate : ∀ {required : List Requirement}, (∀ k, Admits required k (own k)) →
      (Admits required key value ↔ ∀ k, Admits required k (Function.update own key value k)) := by
    intro required hadmits
    constructor
    · intro hvalue k
      by_cases hk : k = key
      · subst hk
        simpa using hvalue
      · simpa [hk] using hadmits k
    · intro hall
      simpa using hall key
  rw [hupdate hown, hupdate hown', hpasses]

lemma Codable.survives (hc : c.Codable) : c.Survives := by
  intro key value
  have hback : ∀ r ∈ c.required, r.expected.reread = r.expected := fun r hr =>
    Json.reread_of_readsBack (hc.values r hr).2
  constructor
  · intro hadmits r hr
    have hmem := List.mem_reverse.mp (List.mem_of_find?_eq_some hr)
    rw [hback r hmem]
    exact hadmits r hmem (last?_key hr)
  · rintro hlast r hr rfl
    obtain ⟨x, hx⟩ := exists_last? (List.mem_map_of_mem hr)
    have hmem := List.mem_reverse.mp (List.mem_of_find?_eq_some hx)
    obtain rfl : x = r := List.inj_on_of_nodup_map hc.distinct hmem hr (last?_key hx)
    rw [← hback x hr]
    exact hlast x hx

end Caveat

lemma Binding.ReadAs.sameVerdicts_iff {b b' : Binding} (h : b.ReadAs b') :
    b.SameVerdicts b' ↔ ∀ c, b.caveat = some c → c.Survives := by
  rcases h.caveat with ⟨hb, hb'⟩ | ⟨c, c', hb, hb', hread⟩
  · refine iff_of_true (fun s principal ctx => ?_) (by simp [hb])
    simp [Store.verdict, Store.checkCaveat, hb, hb']
  · simp only [hb, Option.some.injEq, forall_eq']
    exact ⟨Caveat.survives_of_sameVerdicts hread hb hb',
      fun hc => hc.sameVerdicts hread hb hb' h.organization⟩

end AccessControl
