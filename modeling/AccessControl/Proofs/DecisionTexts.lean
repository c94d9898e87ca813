import AccessControl.Proofs.CachedTexts
import AccessControl.Proofs.ScannedValues

/-! The text of a decision is read as the decision, in every field, exactly when the instants that it
names are such as a reader gives: in whatever year, and if in a leap second, in one at the end of a
minute. -/

namespace AccessControl

namespace Instant

lemma relaxedTime?_spec {cs rest : List Char} {time : Nat × Nat}
    (h : relaxedTime? cs = some (time, rest)) :
    time.2 < 2 * Duration.perSecond ∧ (Duration.perSecond ≤ time.2 → time.1 % 60 = 59) := by
  simp only [relaxedTime?, Option.bind_eq_bind, Option.bind_eq_some_iff] at h
  obtain ⟨⟨hour, _⟩, -, _, -, ⟨minute, _⟩, -, _, -, ⟨second, cs'⟩, -, h⟩ := h
  have hnanos : ∃ nanos, nanos < Duration.perSecond ∧
      timeOfDay? hour minute second nanos = some time := by
    split at h
    · rename_i r heq
      cases hfraction : scanFraction r with
      | error fault => simp [hfraction, Except.toOption] at h
      | ok read =>
        obtain ⟨time', htime, h⟩ : ∃ time', timeOfDay? hour minute second read.1 = some time' ∧
            (time', read.2) = (time, rest) := by
          simpa [hfraction, Except.toOption, Option.bind_eq_some_iff] using h
        obtain ⟨rfl, -⟩ := Prod.mk.inj h
        exact ⟨read.1, scanFraction_lt hfraction, htime⟩
    · obtain ⟨time', htime, h⟩ : ∃ time', timeOfDay? hour minute second 0 = some time' ∧
          (time', cs') = (time, rest) := by
        simpa [Option.bind_eq_some_iff] using h
      obtain ⟨rfl, -⟩ := Prod.mk.inj h
      exact ⟨0, by decide, htime⟩
  obtain ⟨nanos, hlt, htime⟩ := hnanos
  exact timeOfDay?_spec htime hlt

lemma relaxedOffset?_mod {cs rest : List Char} {offset : Int}
    (h : relaxedOffset? cs = some (offset, rest)) : offset % 60 = 0 := by
  have hscan : ∀ cs, (scanOffset skipColons cs).toOption = some (offset, rest) →
      offset % 60 = 0 := by
    intro cs h
    cases hoffset : scanOffset skipColons cs with
    | error fault => simp [hoffset, Except.toOption] at h
    | ok read =>
      obtain rfl : read = (offset, rest) := by simpa [hoffset, Except.toOption] using h
      exact scanOffset_mod hoffset
  rw [relaxedOffset?.eq_def] at h
  split at h
  · split at h
    · obtain ⟨rfl, -⟩ := Prod.mk.inj (Option.some.inj h)
      rfl
    · exact hscan _ h
  · exact hscan _ h

lemma proper_of_ofRelaxedText? {s : String} {t : Instant} (h : ofRelaxedText? s = some t) :
    t.Proper := by
  simp only [ofRelaxedText?, Option.bind_eq_bind, Option.bind_eq_some_iff] at h
  obtain ⟨⟨date, cs⟩, -, h⟩ := h
  split at h
  · cases h
  · split at h
    · obtain ⟨⟨time, r⟩, htime, ⟨offset, r'⟩, hoffset, h⟩ := by
        simpa only [Option.bind_eq_some_iff] using h
      obtain ⟨hnanos, hleap⟩ := relaxedTime?_spec htime
      split at h
      · exact proper_of_ofLocal? h hnanos hleap (relaxedOffset?_mod hoffset)
      · cases h
    · cases h

lemma ofRelaxedText?_written_iff {t : Instant} : ofRelaxedText? t.written = some t ↔ t.Proper := by
  refine ⟨proper_of_ofRelaxedText?, fun ht => ?_⟩
  rw [ofRelaxedText?_written ht.regular, if_pos (Calendar.valid_dateOf ht.inRange.1 ht.inRange.2),
    ofLocal?_written ht.inRange]

lemma proper_of_ofDocument? {d : Document} {t : Instant} (h : ofDocument? d = some t) :
    t.Proper := by
  cases d with
  | text s => exact proper_of_ofRelaxedText? h
  | unreadable | null | bool | number | array | object => cases h

end Instant

lemma Record.exists_of_optional {α : Type} {r : Record} {name : String} {read : Document → Option α}
    {a : α} (h : r.optional name read = some (some a)) : ∃ d, read d = some a := by
  rw [Record.optional, Record.withDefault] at h
  split at h
  · rename_i d _
    rw [Document.orNull?.eq_def] at h
    split at h
    · cases h
    · obtain ⟨a', ha, he⟩ := Option.map_eq_some_iff.mp h
      exact ⟨d, Option.some.inj he ▸ ha⟩
  · cases h

lemma Number.ReadsBack.spelled {n : Number} (h : n.ReadsBack) : n.spelled = .number n := by
  rcases n.reads_spelled with hn | hn
  · have hvalue : n.spelled.value? = some (.number n) := n.value?_spelled.trans h
    rw [hn] at hvalue
    cases hvalue
  · rw [hn, h.reread]

lemma Json.natBelow?_spelled {n bound : Nat} (h : n < bound) (hb : bound ≤ Word.bound)
    (depth : Nat) : Document.natBelow? bound ((Json.nat n).spelled depth) = some n := by
  have hback : (Number.integer n).ReadsBack := by
    refine Number.readsBack_of_inWord ⟨?_, ?_⟩ <;> omega
  rw [Json.nat, Json.spelled, hback.spelled, Document.natBelow?, if_pos (by omega)]
  simp

lemma Json.word?_spelled {n : Nat} (h : n < Word.bound) (depth : Nat) :
    Document.word? ((Json.nat n).spelled depth) = some n :=
  natBelow?_spelled h (Nat.le_refl _) depth

namespace Duration

lemma ofDocument?_spelled {d : Duration} (h : d.seconds < Word.bound) {depth : Nat}
    (hdepth : depth < Document.deepest) : ofDocument? (d.json.spelled depth) = some d := by
  have hnanos : d.subseconds < Word.shortBound :=
    Nat.lt_trans (Nat.mod_lt _ (by decide)) (by decide)
  have hrest : d.subseconds / perSecond = 0 := Nat.div_eq_of_lt (Nat.mod_lt _ (by decide))
  have hwhole : d.seconds * perSecond + d.subseconds = d.nanos := Nat.div_add_mod' _ _
  rw [ofDocument?, json]
  simp only [Option.bind_eq_bind]
  rw [Json.record?_spelled hdepth (by simp), Option.bind_some,
    if_pos (by simp [Json.spelledFields]),
    Json.required_spelled rfl (Json.word?_spelled h _),
    Option.bind_some, Json.required_spelled rfl (Json.natBelow?_spelled hnanos (by decide) _),
    Option.bind_some, hrest, Nat.add_zero, if_pos h, hwhole]

end Duration

namespace RoleSummary

lemma ofDocument?_spelled (r : RoleSummary) {depth : Nat} (hdepth : depth + 1 < Document.deepest) :
    ofDocument? (r.json.spelled depth) = some r := by
  rw [ofDocument?, json, Json.record?_spelled (Nat.lt_of_succ_lt hdepth) (by simp)]
  simp only [Option.bind_eq_bind, Option.bind_some, Option.pure_def]
  rw [Json.required_spelled (a := r.id) rfl rfl, Json.required_spelled (a := r.name) rfl rfl,
    Json.required_spelled rfl (Json.texts?_spelled hdepth r.provenance),
    Json.withDefault_spelled (a := r.conditional) rfl rfl]
  rfl

end RoleSummary

namespace Decision

lemma model_spelled (m : GrantModel) (depth : Nat) :
    Document.choice? GrantModel.words ((Json.string m.word).spelled depth) = some m := by
  cases m <;> rfl

structure Proper (d : Decision) : Prop where
  evaluatedAt : d.evaluatedAt.Proper
  validUntil : ∀ b, d.validUntil = some b → b.Proper

lemma ofText?_written {d : Decision} (hd : d.Proper) (hduration : d.duration.seconds < Word.bound) :
    ofText? d.json.written = some d := by
  obtain ⟨fields, hjson, hkeys, hid, hallowed, hreason, hvia, hmodel, hbinding, hroles, hgroups,
    htrace, hhit, hat, hdur, hvalid⟩ := d.exists_fields
  have hinstant : ∀ {t : Instant}, t.Proper → Instant.ofDocument? (t.json.spelled 1) = some t :=
    fun ht => Instant.ofRelaxedText?_written_iff.mpr ht
  have hdocument : ofDocument? (d.json.spelled 0) = some d := by
    rw [hjson]
    refine ofDocument?_eq_some_iff.mpr ⟨_, Json.record?_spelled (by decide) hkeys _, ?_⟩
    exact {
      id := Json.required_spelled hid rfl
      allowed := Json.required_spelled hallowed rfl
      reason := Json.required_spelled hreason rfl
      via := Json.optional_spelled hvia (by simp [Json.spelled]) fun _ _ => rfl
      model := Json.optional_spelled hmodel (by simp [Json.spelled]) fun m _ => model_spelled m 1
      binding := Json.optional_spelled hbinding (by simp [Json.spelled]) fun _ _ => rfl
      roles := Json.withDefault_spelled hroles
        (Json.list?_spelled (by decide) fun r _ => r.ofDocument?_spelled (by decide))
      columnGroups := Json.omittedTexts_spelled (by decide) hgroups
      trace := Json.withDefault_spelled htrace (Json.texts?_spelled (by decide) d.trace)
      cacheHit := Json.withDefault_spelled hhit rfl
      evaluatedAt := Json.required_spelled hat (hinstant hd.evaluatedAt)
      duration := Json.required_spelled hdur (Duration.ofDocument?_spelled hduration (by decide))
      validUntil := Json.optional_spelled hvalid (by simp [Instant.json, Json.spelled])
        fun b hb => hinstant (hd.validUntil b hb) }
  rw [ofText?, Json.document?_written, Option.bind_some, hdocument]

lemma proper_of_ofText? {s : String} {d : Decision} (h : ofText? s = some d) : d.Proper := by
  obtain ⟨document, -, h⟩ := Option.bind_eq_some_iff.mp h
  obtain ⟨r, -, hr⟩ := ofDocument?_eq_some_iff.mp h
  refine ⟨?_, fun b hb => ?_⟩
  · obtain ⟨document, -, hread⟩ := Option.bind_eq_some_iff.mp hr.evaluatedAt
    exact Instant.proper_of_ofDocument? hread
  · have hbound := hr.validUntil
    rw [hb] at hbound
    obtain ⟨document, hread⟩ := Record.exists_of_optional hbound
    exact Instant.proper_of_ofDocument? hread

lemma ofText?_written_iff {d : Decision} (hduration : d.duration.seconds < Word.bound) :
    ofText? d.json.written = some d ↔ d.Proper :=
  ⟨proper_of_ofText?, fun hd => ofText?_written hd hduration⟩

end Decision

end AccessControl
