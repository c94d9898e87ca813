import AccessControl.Proofs.CaveatChecks
import Mathlib.Data.List.Nodup
import Mathlib.Order.Bounds.Basic

/-! What the outcome of a caveat's check says, and that it does not depend on the order of the
attributes. Of the attributes that provide a key one counts: one of the organization before one of
all organizations, and then the one with the greatest id. No two attributes have the same id. -/

namespace AccessControl

def FirstOf (instants : Set Instant) : Option Instant → Prop
  | none => instants = ∅
  | some t => IsLeast instants t

namespace FirstOf

variable {S T : Set Instant} {x y : Option Instant}

lemma single (x : Option Instant) : FirstOf {t | x = some t} x := by
  cases x with
  | none => simp [FirstOf]
  | some t =>
    refine ⟨rfl, ?_⟩
    rintro t' ht'
    exact Option.some.inj ht' ▸ Instant.le_refl t

lemma union (h : FirstOf S x) (h' : FirstOf T y) : FirstOf (S ∪ T) (earliest x y) := by
  cases x with
  | none =>
    obtain rfl : S = ∅ := h
    simpa [earliest] using h'
  | some a =>
    cases y with
    | none =>
      obtain rfl : T = ∅ := h'
      simpa [earliest] using h
    | some b =>
      simp only [earliest, Instant.min]
      split
      · rename_i hab
        refine ⟨Or.inl h.1, ?_⟩
        rintro t (ht | ht)
        · exact h.2 ht
        · exact Instant.le_trans hab (h'.2 ht)
      · rename_i hab
        have hba : b ≤ a := (Instant.le_total a b).resolve_left hab
        refine ⟨Or.inr h'.1, ?_⟩
        rintro t (ht | ht)
        · exact Instant.le_trans hba (h.2 ht)
        · exact h'.2 ht

end FirstOf

namespace Attribute

variable {a b : Attribute}

/-- An attribute of an organization counts before one of all organizations, and of two of either
kind the one with the greater id. -/
def Outranks (a b : Attribute) : Prop :=
  a.organization.isSome = true ∧ b.organization = none ∨
    a.organization.isSome = b.organization.isSome ∧ b.id < a.id

lemma precedes_iff : b.precedes a = true ↔
    a.Outranks b ∨ a.organization.isSome = b.organization.isSome ∧ b.id = a.id := by
  have hle : b.id ≤ a.id ↔ b.id < a.id ∨ b.id = a.id := by
    refine ⟨fun h => ?_, ?_⟩
    · by_cases hlt : b.id < a.id
      · exact Or.inl hlt
      · exact Or.inr (String.le_antisymm h (String.not_lt.mp hlt))
    · rintro (h | h)
      · exact String.not_lt.mp fun h' => String.lt_irrefl _ (String.lt_trans h h')
      · exact h ▸ String.le_refl _
  rw [precedes, Outranks]
  cases a.organization <;> cases b.organization <;> simp [hle]

lemma Outranks.asymm (h : a.Outranks b) : ¬ b.Outranks a := by
  rintro (⟨hb, ha⟩ | ⟨hs, hlt⟩)
  · rcases h with ⟨-, hb'⟩ | ⟨hs, -⟩
    · simp [hb'] at hb
    · simp [ha, hb] at hs
  · rcases h with ⟨ha, hb⟩ | ⟨-, hlt'⟩
    · simp [ha, hb] at hs
    · exact String.lt_irrefl _ (String.lt_trans hlt hlt')

end Attribute

namespace Store

variable {s : Store} {principal organization key : String} {now : Instant}

/-- The attribute that counts for a key: it provides the key and outranks all others that do. -/
def Counts (s : Store) (principal organization : String) (now : Instant) (key : String)
    (a : Attribute) : Prop :=
  s.Provides principal organization now key a ∧
    ∀ b, s.Provides principal organization now key b → b ≠ a → a.Outranks b

lemma eq_of_ids (hs : (s.attributes.map (·.id)).Nodup) {a b : Attribute}
    (ha : a ∈ s.attributes) (hb : b ∈ s.attributes) (h : a.id = b.id) : a = b :=
  List.inj_on_of_nodup_map hs ha hb h

lemma choose_iff (hs : (s.attributes.map (·.id)).Nodup) {a : Attribute} :
    CaveatCheck.choose (CaveatCheck.candidates s principal organization now) key = some a ↔
      s.Counts principal organization now key a := by
  have hspec : ∀ {a}, CaveatCheck.choose (CaveatCheck.candidates s principal organization now) key
      = some a → s.Counts principal organization now key a := by
    intro a h
    obtain ⟨ha, hlast⟩ := CaveatCheck.choose_spec h
    refine ⟨ha, fun b hb hne => ?_⟩
    rcases Attribute.precedes_iff.mp (hlast b hb) with hrank | ⟨-, hid⟩
    · exact hrank
    · exact absurd (eq_of_ids hs hb.1 ha.1 hid) hne
  refine ⟨hspec, fun h => ?_⟩
  obtain ⟨hmem, hkey⟩ := CaveatCheck.mem_candidates.mpr h.1
  cases hc : CaveatCheck.choose (CaveatCheck.candidates s principal organization now) key with
  | none =>
    rw [CaveatCheck.choose, List.find?_eq_none] at hc
    exact absurd (beq_iff_eq.mpr hkey) (hc a (List.mem_reverse.mpr hmem))
  | some a' =>
    by_cases hne : a' = a
    · rw [hne]
    · exact absurd ((hspec hc).2 a h.1 (Ne.symm hne)) (h.2 a' (hspec hc).1 hne).asymm

lemma candidates_perm (hs : (s.attributes.map (·.id)).Nodup) {rows : List Attribute}
    (hp : rows.Perm s.attributes) :
    CaveatCheck.candidates { s with attributes := rows } principal organization now =
      CaveatCheck.candidates s principal organization now := by
  refine List.Perm.eq_of_pairwise ?_
    (CaveatCheck.pairwise_candidates _ _ _ _) (CaveatCheck.pairwise_candidates _ _ _ _) ?_
  · intro a b ha hb hab hba
    have ha := (CaveatCheck.mem_candidates.mp ⟨ha, rfl⟩).1
    have hb := (CaveatCheck.mem_candidates.mp ⟨hb, rfl⟩).1
    refine eq_of_ids hs (hp.mem_iff.mp ha) hb ?_
    rcases Attribute.precedes_iff.mp hab with hrank | ⟨-, hid⟩
    · rcases Attribute.precedes_iff.mp hba with hrank' | ⟨-, hid⟩
      · exact absurd hrank' hrank.asymm
      · exact hid.symm
    · exact hid
  · refine (List.mergeSort_perm _ _).trans (List.Perm.trans ?_ (List.mergeSort_perm _ _).symm)
    exact (hp.filter _).filter _

end Store

namespace CaveatCheck

lemma firstOf_checkAttributes {provided : List Attribute} {required : List Requirement}
    {bound x : Option Instant} {S : Set Instant} (hb : FirstOf S bound)
    (h : checkAttributes provided required bound = .ok x) :
    FirstOf (S ∪ {t | ∃ r ∈ required, ∃ a, choose provided r.key = some a ∧
      a.expiresAt = some t}) x := by
  induction required generalizing bound S with
  | nil =>
    obtain rfl := Except.ok.inj h
    simpa using hb
  | cons r rest ih =>
    rw [checkAttributes] at h
    cases hc : choose provided r.key with
    | none => simp [hc] at h
    | some a =>
      simp only [hc] at h
      split at h
      · have := ih (hb.union (.single a.expiresAt)) h
        simpa [hc, Set.union_assoc, Set.ofPred_or] using this
      · simp at h

end CaveatCheck

namespace CaveatOutcome

structure Reports (s : Store) (b : Binding) (principal : String) (now : Instant)
    (o : CaveatOutcome) : Prop where
  passed : o.passed = true ↔ ∀ c, b.caveat = some c →
    (∀ w, c.window = some w → w.contains now = true) ∧
    ∀ r ∈ c.required, ∃ a, s.Counts principal b.organization now r.key a ∧
      r.expected.agrees a.value = true
  columnGroups : o.passed = true → o.columnGroups = (b.caveat.map (·.columnGroups)).getD []
  validUntil : o.passed = true → FirstOf {t | ∃ c, b.caveat = some c ∧ ∃ r ∈ c.required,
    ∃ a, s.Counts principal b.organization now r.key a ∧ a.expiresAt = some t} o.validUntil
  failed : o.passed = false → o.columnGroups = [] ∧ o.validUntil = none

end CaveatOutcome

namespace Store

variable {s : Store} {b : Binding} {principal : String} {ctx : Context}

lemma checkCaveat_cases {o : CaveatOutcome} (h : s.checkCaveat b principal ctx = .ok o) :
    b.caveat = none ∧ o = .pass CaveatCheck.noCaveats [] none ∨
      ∃ c, b.caveat = some c ∧
        ((∃ w, c.window = some w ∧ w.contains ctx.now = false ∧ ∃ reason, o = .fail reason) ∨
          (∀ w, c.window = some w → w.contains ctx.now = true) ∧
            o = CaveatCheck.checkRequired s c b principal ctx.now) := by
  rw [checkCaveat] at h
  cases hb : b.caveat with
  | none =>
    simp only [hb] at h
    exact Or.inl ⟨rfl, (Except.ok.inj h).symm⟩
  | some c =>
    simp only [hb] at h
    refine Or.inr ⟨c, rfl, ?_⟩
    cases hf : c.window.bind (CaveatCheck.windowFault · ctx.now) with
    | some reason =>
      obtain ⟨w, hw, hfault⟩ := Option.bind_eq_some_iff.mp hf
      have hout : ¬ w.contains ctx.now = true := by
        rw [← CaveatCheck.windowFault_eq_none, hfault]
        exact Option.some_ne_none reason
      simp only [hf] at h
      exact Or.inl ⟨w, hw, by simpa using hout, reason, (Except.ok.inj h).symm⟩
    | none =>
      simp only [hf] at h
      refine Or.inr ⟨fun w hw => ?_, ?_⟩
      · rw [hw, Option.bind_some] at hf
        exact CaveatCheck.windowFault_eq_none.mp hf
      · split at h
        · rename_i he
          rw [CaveatCheck.checkRequired, List.isEmpty_iff.mp he]
          exact (Except.ok.inj h).symm
        · rw [read, call] at h
          split at h
          · exact (Except.ok.inj h).symm
          · simp at h

lemma columnGroups_of_passed {o : CaveatOutcome} (h : s.checkCaveat b principal ctx = .ok o)
    (hp : o.passed = true) : o.columnGroups = (b.caveat.map (·.columnGroups)).getD [] := by
  rcases checkCaveat_cases h with ⟨hb, rfl⟩ | ⟨c, hb, ⟨w, -, -, reason, rfl⟩ | ⟨-, rfl⟩⟩
  · simp [CaveatOutcome.pass, hb]
  · simp [CaveatOutcome.fail] at hp
  · rw [CaveatCheck.checkRequired] at hp ⊢
    split
    · simp [CaveatOutcome.pass, hb]
    · rename_i hc
      simp [hc, CaveatOutcome.fail] at hp

lemma reports_of_checkCaveat (hs : (s.attributes.map (·.id)).Nodup) {o : CaveatOutcome}
    (h : s.checkCaveat b principal ctx = .ok o) : o.Reports s b principal ctx.now := by
  have hcolumns := columnGroups_of_passed h
  rcases checkCaveat_cases h with ⟨hb, rfl⟩ | ⟨c, hb, ⟨w, hw, hout, reason, rfl⟩ | ⟨hw, rfl⟩⟩
  · exact ⟨by simp [CaveatOutcome.pass, hb], hcolumns,
      by simp [CaveatOutcome.pass, hb, FirstOf], by simp [CaveatOutcome.pass]⟩
  · refine ⟨iff_of_false (by simp [CaveatOutcome.fail]) fun hc => ?_, hcolumns,
      by simp [CaveatOutcome.fail], fun _ => ⟨rfl, rfl⟩⟩
    exact absurd ((hc c hb).1 w hw) (by simp [hout])
  · have hmeets : CaveatCheck.Meets
        (CaveatCheck.candidates s principal b.organization ctx.now) c.required ↔
          ∀ r ∈ c.required, ∃ a, s.Counts principal b.organization ctx.now r.key a ∧
            r.expected.agrees a.value = true := by
      simp only [CaveatCheck.Meets, choose_iff hs]
    have hok : (∃ bound, CaveatCheck.checkAttributes
        (CaveatCheck.candidates s principal b.organization ctx.now) c.required none =
          .ok bound) ↔ _ := CaveatCheck.checkAttributes_ok
    rw [CaveatCheck.checkRequired] at hcolumns ⊢
    split
    · rename_i bound hc
      simp only [hc] at hcolumns
      refine ⟨iff_of_true rfl fun c' hc' => ?_, hcolumns, fun _ => ?_,
        by simp [CaveatOutcome.pass]⟩
      · obtain rfl := Option.some.inj (hb.symm.trans hc')
        exact ⟨hw, hmeets.mp (hok.mp ⟨bound, hc⟩)⟩
      · have hfirst : FirstOf _ bound :=
          CaveatCheck.firstOf_checkAttributes (show FirstOf ∅ none from rfl) hc
        simpa [CaveatOutcome.pass, hb, choose_iff hs] using hfirst
    · rename_i reason hc
      refine ⟨iff_of_false (by simp [CaveatOutcome.fail]) fun hall => ?_,
        by simp [CaveatOutcome.fail], by simp [CaveatOutcome.fail], fun _ => ⟨rfl, rfl⟩⟩
      obtain ⟨bound, hc'⟩ := hok.mpr (hmeets.mpr (hall c hb).2)
      simp [hc] at hc'

/-- The check of a caveat is exact, and takes no notice of the order of the stored attributes. -/
theorem checkCaveat_exact (s : Store) (hs : (s.attributes.map (·.id)).Nodup) (b : Binding)
    (principal : String) (ctx : Context) :
    (s.available = true → ∃ o, s.checkCaveat b principal ctx = .ok o) ∧
    (∀ o, s.checkCaveat b principal ctx = .ok o → o.Reports s b principal ctx.now) ∧
    ∀ rows : List Attribute, rows.Perm s.attributes →
      { s with attributes := rows }.checkCaveat b principal ctx =
        s.checkCaveat b principal ctx := by
  refine ⟨fun ha => ?_, fun o h => reports_of_checkCaveat hs h, fun rows hp => ?_⟩
  · obtain ⟨o, h, -⟩ := checkCaveat_ok ha b principal ctx
    exact ⟨o, h⟩
  · simp only [checkCaveat, CaveatCheck.checkRequired, candidates_perm hs hp, read, call]

def cleared : Store :=
  { Store.empty with
    attributes := [
      { Attribute.ofPrincipal "a" "ada" "level" (.string "high") with
        organization := some "acme", expiresAt := some ⟨60, 0⟩ },
      .ofPrincipal "b" "ada" "level" (.string "low")] }

def forCleared : Binding :=
  { Binding.attach "c" .user "ada" (.role "reader") "doc" "acme" with
    caveat := some ⟨some (.endingAt ⟨90, 0⟩), [⟨"level", .string "high"⟩], ["names"]⟩ }

theorem checkCaveat_exact_cleared :
    (cleared.attributes.map (·.id)).Nodup ∧
    (∃ o, cleared.checkCaveat forCleared "ada" ⟨none, none, ⟨0, 0⟩⟩ = .ok o ∧
      o.Reports cleared forCleared "ada" ⟨0, 0⟩ ∧ o.passed = true) ∧
    { cleared with attributes := cleared.attributes.reverse }.checkCaveat forCleared "ada"
        ⟨none, none, ⟨0, 0⟩⟩ = cleared.checkCaveat forCleared "ada" ⟨none, none, ⟨0, 0⟩⟩ := by
  have hids : (cleared.attributes.map (·.id)).Nodup := by decide
  obtain ⟨hok, hexact, hperm⟩ := checkCaveat_exact cleared hids forCleared "ada"
    ⟨none, none, ⟨0, 0⟩⟩
  obtain ⟨o, ho⟩ := hok rfl
  have hpassed : o.passed = true := by
    refine (hexact o ho).passed.mpr fun c hc => ?_
    obtain rfl := Option.some.inj hc
    refine ⟨fun w hw => Option.some.inj hw ▸ by decide, fun r hr => ?_⟩
    obtain rfl := List.mem_singleton.mp hr
    refine ⟨_, ⟨⟨List.mem_cons_self, rfl, rfl, rfl, rfl, ?_, ?_⟩, fun b hb hne => ?_⟩, rfl⟩
    · exact fun e he => Option.some.inj he ▸ by decide
    · exact fun o ho => (Option.some.inj ho).symm
    · rcases List.mem_cons.mp hb.1 with rfl | hb
      · exact absurd rfl hne
      · obtain rfl := List.mem_singleton.mp hb
        exact Or.inl ⟨rfl, rfl⟩
  exact ⟨hids, ⟨o, ho, hexact o ho, hpassed⟩, hperm _ (List.reverse_perm _)⟩

end Store

end AccessControl
