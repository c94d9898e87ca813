import AccessControl.Proofs.CachedTexts
import AccessControl.Proofs.ScannedValues

/-! A caveat that was read from a text is read back from its own text, unless that text names a year
that needs a sign, or a floating-point number that its digits do not give back. -/

namespace AccessControl

namespace Caveat

structure Scanned (c : Caveat) : Prop where
  window : c.window =
    windowOf? (c.window.getD .unbounded).startsAt (c.window.getD .unbounded).endsAt
  starts : ∀ t, (c.window.getD .unbounded).startsAt = some t → t.Proper
  ends : ∀ t, (c.window.getD .unbounded).endsAt = some t → t.Proper
  forward : ∀ s e, (c.window.getD .unbounded).startsAt = some s →
    (c.window.getD .unbounded).endsAt = some e → s ≤ e
  keys : Json.Increasing (c.required.map fun r => (r.key, r.expected))
  values : ∀ r ∈ c.required, r.expected.Scanned 2

lemma proper_of_instantOf {j : Json} {t : Instant} (h : instantOf j = .ok (some t)) : t.Proper := by
  cases j with
  | string s =>
    rw [instantOf] at h
    split at h
    · rename_i t' ht
      obtain rfl := Option.some.inj (Except.ok.inj h)
      exact Instant.proper_of_ofStrictText ht
    · cases h
  | number n =>
    cases n with
    | integer v =>
      simp only [instantOf] at h
      split at h
      · rename_i t' ht
        obtain rfl := Option.some.inj (Except.ok.inj h)
        split at ht
        · exact Instant.proper_of_ofSeconds? ht
        · cases ht
      · cases h
    | double bits => cases h
  | null | bool | array | object => cases h

lemma proper_of_bound {j : Option Json} {t : Instant} (h : Caveat.bound j = .ok (some t)) :
    t.Proper := by
  cases j with
  | none => cases h
  | some j => exact proper_of_instantOf h

lemma scanned_of_objectFields? {d : Document} {fields : List (String × Json)} (hd : d.Fits 1)
    (h : objectFields? d = some fields) :
    Json.Increasing fields ∧ ∀ f ∈ fields, f.2.Scanned 2 := by
  cases d with
  | object ds =>
    obtain ⟨fs, hfs, rfl⟩ := Option.map_eq_some_iff.mp h
    refine ⟨Json.increasing_orderFields fs, fun f hf => ?_⟩
    exact Json.scanned_of_fieldValues? hd.2 hfs f (Json.mem_of_mem_orderFields hf)
  | unreadable | null | bool | number | text | array => cases h

lemma Draft.scanned_required {d : Document} {draft : Draft} (hd : d.Fits 0)
    (h : Draft.ofDocument? d = some draft) :
    Json.Increasing draft.required ∧ ∀ f ∈ draft.required, f.2.Scanned 2 := by
  obtain ⟨r, hr, h⟩ := Option.bind_eq_some_iff.mp h
  simp only [Option.bind_eq_bind, Option.bind_eq_some_iff, Option.pure_def] at h
  obtain ⟨_, -, _, -, required, hrequired, _, -, h⟩ := h
  obtain rfl := Option.some.inj h
  rw [Record.withDefault] at hrequired
  split at hrequired
  · rename_i d' hd'
    have hfits := Record.fits_of_record? hd hr _ (Record.mem_of_get? hd')
    exact scanned_of_objectFields? hfits hrequired
  · obtain rfl := Option.some.inj hrequired
    exact ⟨List.Pairwise.nil, by simp⟩

lemma ofText_ok_iff {text : String} {c : Caveat} :
    ofText text = .ok c ↔ ∃ d rest draft, Document.scan? text = some (d, rest) ∧
      Draft.ofDocument? d = some draft ∧ ofDraft draft = .ok c ∧
      Document.onlyBlank rest = true := by
  constructor
  · intro h
    rw [ofText] at h
    split at h
    · cases h
    · rename_i d rest hscan
      split at h
      · cases h
      · rename_i draft hdraft
        split at h
        · cases h
        · rename_i c' hok
          split at h
          · rename_i hblank
            exact ⟨d, rest, draft, hscan, hdraft, Except.ok.inj h ▸ hok, hblank⟩
          · cases h
  · rintro ⟨d, rest, draft, hscan, hdraft, hok, hblank⟩
    simp [ofText, hscan, hdraft, hok, hblank]

lemma scanned_of_ofText {text : String} {c : Caveat} (h : ofText text = .ok c) : c.Scanned := by
  obtain ⟨d, rest, draft, hscan, hdraft, hok, -⟩ := ofText_ok_iff.mp h
  obtain ⟨hkeys, hvalues⟩ := Draft.scanned_required (Document.fits_of_scan? hscan) hdraft
  obtain ⟨s, e, hs, he, hforward, rfl⟩ := ofDraft_ok_iff.mp hok
  refine ⟨?_, ?_, ?_, ?_, ?_, ?_⟩
  · rw [windowOf?_getD]
  · rw [windowOf?_getD]
    rintro t rfl
    exact proper_of_bound hs
  · rw [windowOf?_getD]
    rintro t rfl
    exact proper_of_bound he
  · rw [windowOf?_getD]
    exact hforward
  · simpa [Function.comp_def] using hkeys
  · intro r hr
    obtain ⟨f, hf, rfl⟩ := List.mem_map.mp hr
    exact hvalues f hf

lemma nodup_keys {c : Caveat} {fields : List (String × Json)} (h : c.json = .object fields) :
    (fields.map (·.1)).Nodup := by
  obtain rfl := Json.object.inj h
  cases (c.window.getD .unbounded).startsAt <;> cases (c.window.getD .unbounded).endsAt <;>
    cases requiredObject c.required <;> cases c.columnGroups <;> simp [Json.field?]

lemma optional_spelled {fields : List (String × Json)} {name : String} {b : Option Instant}
    (h : fields.lookup name = b.map (.string ·.writtenWithOffset)) :
    Record.optional ⟨Json.spelledFields 1 fields, false⟩ name Document.value? =
      some (b.map (.string ·.writtenWithOffset)) := by
  rw [Record.optional, Record.withDefault, Record.get?, Json.lookup_spelledFields, h]
  cases b <;> rfl

lemma required_spelled {c : Caveat} {fields : List (String × Json)}
    (h : fields.lookup "required_attributes" =
      if requiredObject c.required = [] then none
      else some (.object (requiredObject c.required))) :
    Record.withDefault ⟨Json.spelledFields 1 fields, false⟩ "required_attributes" objectFields? [] =
      Document.fieldValues? (Json.spelledFields 2 (requiredObject c.required)) := by
  rw [Record.withDefault, Record.get?, Json.lookup_spelledFields, h]
  by_cases he : requiredObject c.required = []
  · rw [if_pos he, he]
    rfl
  · have hordered := Json.map_orderFields_spelled
      (Json.increasing_orderFields (c.required.map fun r => (r.key, r.expected))) 2 id
    rw [Option.map_id] at hordered
    rw [if_neg he]
    exact hordered

lemma ofDocument?_spelled (c : Caveat) :
    Draft.ofDocument? (c.json.spelled 0) =
      (Document.fieldValues? (Json.spelledFields 2 (requiredObject c.required))).map fun required =>
        ⟨(c.window.getD .unbounded).startsAt.map (.string ·.writtenWithOffset),
          (c.window.getD .unbounded).endsAt.map (.string ·.writtenWithOffset), required,
          c.columnGroups⟩ := by
  obtain ⟨fields, hjson, hstarts, hends, hrequired, hgroups⟩ := c.exists_fields
  rw [Draft.ofDocument?, hjson, Json.record?_spelled (by decide) (nodup_keys hjson)]
  simp only [Option.bind_eq_bind, Option.bind_some, optional_spelled hstarts,
    optional_spelled hends, required_spelled hrequired,
    Json.omittedTexts_spelled (show 1 < Document.deepest by decide) hgroups, Option.pure_def]
  cases Document.fieldValues? (Json.spelledFields 2 (requiredObject c.required)) <;> rfl

lemma bound_written_iff {b b' : Option Instant} (hb : ∀ t, b = some t → t.Proper) :
    Caveat.bound (b.map (.string ·.writtenWithOffset)) = .ok b' ↔
      b' = b ∧ ∀ t, b = some t → t.FourDigitYear := by
  cases b with
  | none => simp [Caveat.bound, eq_comm]
  | some t =>
    have hiff : ∀ t', Instant.ofStrictText t.writtenWithOffset = .ok t' ↔
        t' = t ∧ t.FourDigitYear := fun _ => Instant.ofStrictText_written_iff (hb t rfl)
    simp only [Option.map_some, Caveat.bound, instantOf, Option.some.injEq, forall_eq']
    cases hread : Instant.ofStrictText t.writtenWithOffset with
    | error fault =>
      refine iff_of_false (by simp) fun h => ?_
      have hok := (hiff t).mpr ⟨rfl, h.2⟩
      simp [hread] at hok
    | ok t' =>
      obtain ⟨rfl, hyear⟩ := (hiff t').mp hread
      simp [hyear, eq_comm]

lemma ofText_written_iff {c c' : Caveat} (hc : c.Scanned) :
    ofText c.json.written = .ok c' ↔
      ((∀ t, (c.window.getD .unbounded).startsAt = some t → t.FourDigitYear) ∧
        ∀ t, (c.window.getD .unbounded).endsAt = some t → t.FourDigitYear) ∧
      ∃ required, Document.fieldValues? (Json.spelledFields 2 (requiredObject c.required)) =
        some required ∧ c' = ⟨c.window, required.map fun f => ⟨f.1, f.2⟩, c.columnGroups⟩ := by
  constructor
  · intro h
    obtain ⟨d, rest, draft, hscan, hdraft, hok, -⟩ := ofText_ok_iff.mp h
    rw [Json.scan?_written] at hscan
    obtain ⟨rfl, -⟩ := Prod.mk.inj (Option.some.inj hscan)
    rw [ofDocument?_spelled, Option.map_eq_some_iff] at hdraft
    obtain ⟨required, hrequired, rfl⟩ := hdraft
    obtain ⟨s, e, hs, he, -, rfl⟩ := ofDraft_ok_iff.mp hok
    obtain ⟨rfl, hstarts⟩ := (bound_written_iff hc.starts).mp hs
    obtain ⟨rfl, hends⟩ := (bound_written_iff hc.ends).mp he
    refine ⟨⟨hstarts, hends⟩, required, hrequired, ?_⟩
    rw [← hc.window]
  · rintro ⟨⟨hstarts, hends⟩, required, hrequired, rfl⟩
    have hdraft := ofDocument?_spelled c
    rw [hrequired, Option.map_some] at hdraft
    have hs := (bound_written_iff hc.starts).mpr ⟨rfl, hstarts⟩
    have he := (bound_written_iff hc.ends).mpr ⟨rfl, hends⟩
    refine ofText_ok_iff.mpr ⟨_, _, _, c.json.scan?_written, hdraft,
      ofDraft_ok_iff.mpr ⟨_, _, hs, he, hc.forward, ?_⟩, rfl⟩
    rw [← hc.window]

lemma sameRequired_eq (required : List Requirement) (fields : List (String × Json)) :
    (required.length == (fields.map fun f => (⟨f.1, f.2⟩ : Requirement)).length &&
      (required.zip (fields.map fun f => (⟨f.1, f.2⟩ : Requirement))).all fun (x, y) =>
        x.key == y.key && x.expected.same y.expected) =
      Json.sameFields (required.map fun r => (r.key, r.expected)) fields := by
  induction required generalizing fields with
  | nil => cases fields <;> rfl
  | cons r required ih =>
    cases fields with
    | nil => rfl
    | cons f fields =>
      simp only [List.map_cons, Json.sameFields, ← ih fields]
      simp [Bool.and_left_comm]

lemma same_iff {c : Caveat} {fields : List (String × Json)} :
    c.same ⟨c.window, fields.map fun f => ⟨f.1, f.2⟩, c.columnGroups⟩ = true ↔
      Json.sameFields (c.required.map fun r => (r.key, r.expected)) fields = true := by
  rw [← sameRequired_eq, same]
  simp

lemma numbers_iff {c : Caveat} (hc : c.Scanned) :
    (∃ required, Document.fieldValues? (Json.spelledFields 2 (requiredObject c.required)) =
        some required ∧
      Json.sameFields (c.required.map fun r => (r.key, r.expected)) required = true) ↔
      ∀ r ∈ c.required, r.expected.Numbers Number.Lossless := by
  have hcanonical : Json.CanonicalFields (c.required.map fun r => (r.key, r.expected)) := by
    rw [Json.canonicalFields_iff]
    intro f hf
    obtain ⟨r, hr, rfl⟩ := List.mem_map.mp hf
    exact (hc.values r hr).canonical
  have hfits : Document.FitsFields 2
      (Json.fieldDocuments (c.required.map fun r => (r.key, r.expected))) := by
    rw [Json.fieldDocuments_eq, Document.fitsFields_iff]
    intro g hg
    simp only [List.map_map, List.mem_map, Function.comp_apply] at hg
    obtain ⟨r, hr, rfl⟩ := hg
    exact (hc.values r hr).fits
  rw [requiredObject, Json.orderFields_of_increasing hc.keys,
    Json.exists_fieldValues?_iff hcanonical hfits, Json.numbersFields_iff]
  simp

lemma bounds_iff {window : Option TimeWindow} {p : Instant → Prop} :
    ((∀ t, (window.getD .unbounded).startsAt = some t → p t) ∧
      ∀ t, (window.getD .unbounded).endsAt = some t → p t) ↔
      ∀ w, window = some w → ∀ t, w.startsAt = some t ∨ w.endsAt = some t → p t := by
  cases window with
  | none => simp [TimeWindow.unbounded]
  | some w => simp [or_imp, forall_and]

/-- A caveat that was read from a text is read back from its own text as an equal caveat exactly
when the years of its bounds have four digits and the text of every floating-point number in its
requirements is read as an equal number. -/
theorem readBack_iff {text : String} {c : Caveat} (h : ofText text = .ok c) :
    (∃ c', ofText c.json.written = .ok c' ∧ c.same c' = true) ↔
      (∀ w, c.window = some w →
        ∀ t, w.startsAt = some t ∨ w.endsAt = some t → t.FourDigitYear) ∧
      ∀ r ∈ c.required, r.expected.Numbers Number.Lossless := by
  have hc := scanned_of_ofText h
  rw [← numbers_iff hc, ← bounds_iff]
  constructor
  · rintro ⟨c', hread, hsame⟩
    obtain ⟨hyears, required, hrequired, rfl⟩ := (ofText_written_iff hc).mp hread
    exact ⟨hyears, required, hrequired, same_iff.mp hsame⟩
  · rintro ⟨hyears, required, hrequired, hsame⟩
    exact ⟨_, (ofText_written_iff hc).mpr ⟨hyears, required, hrequired, rfl⟩, same_iff.mpr hsame⟩

lemma exists_endingAt {text : String} {chars : List Char} (t : Instant)
    (htext : text.toList = chars)
    (h : (ofText (String.ofList chars)).toOption.any (fun c =>
      c.window == some (.endingAt t) && c.required.isEmpty) = true) :
    ∃ c, ofText text = .ok c ∧ c.window = some (.endingAt t) ∧ c.required = [] := by
  rw [← htext, String.ofList_toList] at h
  cases hc : ofText text with
  | error fault => simp [hc, Except.toOption] at h
  | ok c => exact ⟨c, rfl, by simpa [hc, Except.toOption] using h⟩

theorem readBack_until_tenThousand :
    (∃ c, ofText "\x7b\"ends_at\":253402300799\x7d" = .ok c ∧
      ∃ c', ofText c.json.written = .ok c' ∧ c.same c' = true) ∧
    ∃ c, ofText "\x7b\"ends_at\":253402300800\x7d" = .ok c ∧
      ¬ ∃ c', ofText c.json.written = .ok c' ∧ c.same c' = true := by
  have hlast : "\x7b\"ends_at\":253402300799\x7d".toList =
      ['\x7b', '"', 'e', 'n', 'd', 's', '_', 'a', 't', '"', ':',
        '2', '5', '3', '4', '0', '2', '3', '0', '0', '7', '9', '9', '\x7d'] := String.toList_ofList
  have hnext : "\x7b\"ends_at\":253402300800\x7d".toList =
      ['\x7b', '"', 'e', 'n', 'd', 's', '_', 'a', 't', '"', ':',
        '2', '5', '3', '4', '0', '2', '3', '0', '0', '8', '0', '0', '\x7d'] := String.toList_ofList
  constructor
  · obtain ⟨c, hc, hwindow, hrequired⟩ := exists_endingAt ⟨253402300799, 0⟩ hlast (by
      rw [ofText, Document.scan?, String.toList_ofList]
      decide +kernel)
    refine ⟨c, hc, (readBack_iff hc).mpr ⟨?_, by simp [hrequired]⟩⟩
    rw [hwindow]
    rintro w ⟨⟩ t (⟨⟨⟩⟩ | ⟨⟨⟩⟩)
    decide +kernel
  · obtain ⟨c, hc, hwindow, hrequired⟩ := exists_endingAt ⟨253402300800, 0⟩ hnext (by
      rw [ofText, Document.scan?, String.toList_ofList]
      decide +kernel)
    refine ⟨c, hc, fun hback => ?_⟩
    have hyear := ((readBack_iff hc).mp hback).1 _ hwindow ⟨253402300800, 0⟩ (Or.inr rfl)
    revert hyear
    decide +kernel

end Caveat

end AccessControl
