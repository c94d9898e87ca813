import AccessControl.Proofs.Records

/-! A value that was scanned from a text is scanned again from its own text, but for floating-point
numbers: its containers are not nested too deep, and its whole numbers fit a word. -/

namespace AccessControl

/-! Whole numbers. -/

def Number.InWord : Number → Prop
  | .integer v => -Word.signedBound ≤ v ∧ v < Word.bound
  | .double _ => True

namespace NumberText

lemma le_ofDigitChars (cs : List Char) (n : Nat) : n ≤ Nat.ofDigitChars 10 cs n := by
  induction cs generalizing n with
  | nil => exact Nat.le_refl n
  | cons c cs ih =>
    rw [Nat.ofDigitChars_cons]
    exact Nat.le_trans (by omega) (ih _)

lemma gather_of_lt {cs : List Char} {n : Nat} (h : Nat.ofDigitChars 10 cs n < Word.bound) :
    gather n cs = (Nat.ofDigitChars 10 cs n, 0) := by
  induction cs generalizing n with
  | nil => rfl
  | cons c cs ih =>
    have hstep : Nat.ofDigitChars 10 (c :: cs) n =
        Nat.ofDigitChars 10 cs (n * 10 + digitValue c) := by
      rw [Nat.ofDigitChars_cons, Nat.mul_comm]
      rfl
    rw [hstep] at h ⊢
    have hle := le_ofDigitChars cs (n * 10 + digitValue c)
    rw [gather, if_pos (Nat.lt_of_le_of_lt hle h), ih h]

lemma gather_toDigits {k : Nat} (h : k < Word.bound) : gather 0 (Nat.toDigits 10 k) = (k, 0) := by
  rw [gather_of_lt] <;> rw [Nat.ofDigitChars_ten_toDigits]
  exact h

lemma gather_lt {n : Nat} (h : n < Word.bound) (cs : List Char) :
    (gather n cs).1 < Word.bound := by
  induction cs generalizing n with
  | nil => exact h
  | cons c cs ih =>
    rw [gather]
    split
    · exact ih (by assumption)
    · exact h

lemma scanUnsigned_toDigits (negative : Bool) (k : Nat) :
    scanUnsigned negative (Nat.toDigits 10 k) =
      some (⟨negative, Nat.toDigits 10 k, [], false, [], true⟩, []) := by
  have hwhole := whole_toDigits k
  rw [scanUnsigned, spanDigits_digits hwhole.digits]
  split
  · rename_i heq
    exact absurd (Prod.mk.inj heq).1 hwhole.ne_nil
  · rename_i heq
    exact absurd (Prod.mk.inj heq).1 (hwhole.leading _ _)
  · rename_i heq
    obtain ⟨rfl, rfl⟩ := Prod.mk.inj heq
    rfl

lemma scan_toDigits (k : Nat) : scan (Nat.toDigits 10 k) =
    some (⟨false, Nat.toDigits 10 k, [], false, [], true⟩, []) := by
  have hwhole := whole_toDigits k
  obtain ⟨c, cs, hk⟩ := List.exists_cons_of_ne_nil hwhole.ne_nil
  have hc : c ≠ '-' := by
    rintro rfl
    simpa using hwhole.digits '-' (by simp [hk])
  rw [hk, scan_cons, if_neg hc, ← hk, scanUnsigned_toDigits]

lemma double_inWord {negative : Bool} {significand : Nat} {e : Int} {m : Number}
    (h : double negative significand e = some m) : m.InWord := by
  simp only [double, Option.bind_eq_bind, Option.bind_eq_some_iff] at h
  obtain ⟨f, -, h⟩ := h
  obtain rfl := Option.some.inj h
  trivial

lemma value_inWord {t : NumberText} {m : Number} (h : t.value = some m) : m.InWord := by
  have hlt := gather_lt (n := 0) (by decide) t.whole
  simp only [value] at h
  split at h
  · split at h
    · split at h
      · obtain rfl := Option.some.inj h
        simp only [Number.InWord]
        omega
      · exact double_inWord h
    · obtain rfl := Option.some.inj h
      simp only [Number.InWord]
      omega
  · exact double_inWord h

end NumberText

namespace Number

lemma readsBack_of_scan {n : Number} {cs : List Char} {t : NumberText}
    (hcs : n.written.toList = cs) (h : NumberText.scan cs = some (t, []))
    (hv : t.value = some n) : n.ReadsBack := by
  rw [ReadsBack, ← value?_spelled, spelled_eq (hcs ▸ h), hv]
  rfl

lemma readsBack_of_inWord {v : Int} (h : (Number.integer v).InWord) :
    (Number.integer v).ReadsBack := by
  obtain ⟨hlow, hhigh⟩ := h
  cases v with
  | ofNat k =>
    have hk : k < Word.bound := by simpa using hhigh
    have hlist : (Number.integer (Int.ofNat k)).written.toList = Nat.toDigits 10 k :=
      String.toList_ofList
    refine readsBack_of_scan hlist (NumberText.scan_toDigits k) ?_
    simp [NumberText.value, NumberText.gather_toDigits hk]
  | negSucc k =>
    have hk : k + 1 ≤ Word.signedBound := by
      rw [Int.negSucc_eq] at hlow
      omega
    have hlist : (Number.integer (Int.negSucc k)).written.toList =
        '-' :: Nat.toDigits 10 (k + 1) := by
      have htext : (Number.integer (Int.negSucc k)).written = "-" ++ toString (k + 1) := rfl
      simp [htext]
    have hscan : NumberText.scan ('-' :: Nat.toDigits 10 (k + 1)) =
        some (⟨true, Nat.toDigits 10 (k + 1), [], false, [], true⟩, []) := by
      rw [NumberText.scan_cons, if_pos rfl, NumberText.scanUnsigned_toDigits]
    have hgather := NumberText.gather_toDigits (k := k + 1) (Nat.lt_of_le_of_lt hk (by decide))
    refine readsBack_of_scan hlist hscan ?_
    simp [NumberText.value, hgather, hk, Int.negSucc_eq]

def Lossless (n : Number) : Prop :=
  ∀ bits, n = .double bits →
    ∃ m, Json.ofText? (Json.number n).written = some (.number m) ∧ n.same m = true

lemma exists_value?_spelled_iff {n : Number} (h : n.InWord) :
    (∃ j, n.spelled.value? = some j ∧ (Json.number n).same j = true) ↔ n.Lossless := by
  rw [value?_spelled]
  cases n with
  | integer v =>
    constructor
    · rintro - bits ⟨⟩
    · intro _
      exact ⟨_, readsBack_of_inWord h, by simp [Json.same, same]⟩
  | double bits =>
    constructor
    · rintro ⟨j, hj, hsame⟩ _ -
      cases j with
      | number m => exact ⟨m, hj, hsame⟩
      | null | bool | string | array | object => simp [Json.same] at hsame
    · intro hlossless
      obtain ⟨m, hm, hsame⟩ := hlossless bits rfl
      exact ⟨.number m, hm, hsame⟩

end Number

/-! What can be scanned. -/

namespace Document

mutual

def Fits (depth : Nat) : Document → Prop
  | .number n => n.InWord
  | .array items => depth < deepest ∧ FitsItems (depth + 1) items
  | .object fields => depth < deepest ∧ FitsFields (depth + 1) fields
  | _ => True

def FitsItems (depth : Nat) : List Document → Prop
  | [] => True
  | d :: ds => d.Fits depth ∧ FitsItems depth ds

def FitsFields (depth : Nat) : List (String × Document) → Prop
  | [] => True
  | (_, d) :: ds => d.Fits depth ∧ FitsFields depth ds

end

variable {depth fuel : Nat}

lemma fitsItems_iff {ds : List Document} : FitsItems depth ds ↔ ∀ d ∈ ds, d.Fits depth := by
  induction ds with
  | nil => simp [FitsItems]
  | cons d ds ih => simp [FitsItems, ih]

lemma fitsFields_iff {ds : List (String × Document)} :
    FitsFields depth ds ↔ ∀ f ∈ ds, f.2.Fits depth := by
  induction ds with
  | nil => simp [FitsFields]
  | cons f ds ih => simp [FitsFields, ih]

lemma nested_of_lt (h : depth < deepest) (d : Document) : nested (depth + 1) d = d :=
  if_pos h

lemma fits_nested {d : Document} (h : depth < deepest → d.Fits depth) :
    (nested (depth + 1) d).Fits depth := by
  rw [nested]
  split
  · exact h (by assumption)
  · trivial

def ValueFits (fuel : Nat) : Prop :=
  ∀ {depth : Nat} {cs : List Char} {d : Document} {r : List Char},
    scanValue depth fuel cs = some (d, r) → d.Fits depth

def ItemsFit (fuel : Nat) : Prop :=
  ∀ {depth : Nat} {items : List Document} {cs : List Char} {ds : List Document} {r : List Char},
    (∀ d ∈ items, d.Fits depth) → scanItems depth fuel items cs = some (ds, r) →
      ∀ d ∈ ds, d.Fits depth

def FieldsFit (fuel : Nat) : Prop :=
  ∀ {depth : Nat} {fields ds : Option (List (String × Document))} {cs r : List Char},
    (∀ fs, fields = some fs → ∀ f ∈ fs, f.2.Fits depth) →
      scanFields depth fuel fields cs = some (ds, r) →
        ∀ fs, ds = some fs → ∀ f ∈ fs, f.2.Fits depth

lemma itemsFit_succ (hv : ValueFits fuel) (hi : ItemsFit fuel) : ItemsFit (fuel + 1) := by
  intro depth items cs ds r hitems h
  rw [scanItems] at h
  split at h
  · rename_i d r' hd
    have hcons : ∀ x ∈ d :: items, x.Fits depth := by
      intro x hx
      rcases List.mem_cons.mp hx with rfl | hx
      · exact hv hd
      · exact hitems x hx
    split at h
    · exact hi hcons h
    · obtain ⟨rfl, -⟩ := Prod.mk.inj (Option.some.inj h)
      exact fun x hx => hcons x (List.mem_reverse.mp hx)
    · cases h
  · cases h

lemma fieldsFit_succ (hv : ValueFits fuel) (hf : FieldsFit fuel) : FieldsFit (fuel + 1) := by
  intro depth fields ds cs r hfields h
  rw [scanFields] at h
  split at h
  · split at h
    · rename_i key r' hkey
      split at h
      · split at h
        · rename_i d r'' hd
          have hcons : ∀ key fs, fields = some fs → ∀ f ∈ (key, d) :: fs, f.2.Fits depth := by
            rintro key fs hfs f hmem
            rcases List.mem_cons.mp hmem with rfl | hmem
            · exact hv hd
            · exact hfields fs hfs f hmem
          simp only at h
          split at h
          · refine hf (fun fs hfs => ?_) h
            split at hfs
            · obtain rfl := Option.some.inj hfs
              exact hcons _ _ rfl
            · cases hfs
          · obtain ⟨rfl, -⟩ := Prod.mk.inj (Option.some.inj h)
            rintro fs hfs f hmem
            obtain ⟨gs, hgs, rfl⟩ := Option.map_eq_some_iff.mp hfs
            split at hgs
            · obtain rfl := Option.some.inj hgs
              exact hcons _ _ rfl f (List.mem_reverse.mp hmem)
            · cases hgs
          · cases h
        · cases h
      · cases h
    · cases h
  · cases h

lemma valueFits_succ (hi : ItemsFit fuel) (hf : FieldsFit fuel) : ValueFits (fuel + 1) := by
  intro depth cs d r h
  rw [scanValue] at h
  split at h
  · cases h
  · split at h
    · obtain ⟨rfl, -⟩ := Prod.mk.inj (Option.some.inj h)
      trivial
    · obtain ⟨rfl, -⟩ := Prod.mk.inj (Option.some.inj h)
      trivial
    · cases h
  · split at h
    · obtain ⟨rfl, -⟩ := Prod.mk.inj (Option.some.inj h)
      exact fits_nested fun hdepth => ⟨hdepth, trivial⟩
    · obtain ⟨⟨ds, r'⟩, hds, h⟩ := Option.map_eq_some_iff.mp h
      obtain ⟨rfl, -⟩ := Prod.mk.inj h
      exact fits_nested fun hdepth => ⟨hdepth, fitsItems_iff.mpr (hi (by simp) hds)⟩
  · split at h
    · obtain ⟨rfl, -⟩ := Prod.mk.inj (Option.some.inj h)
      exact fits_nested fun hdepth => ⟨hdepth, trivial⟩
    · obtain ⟨⟨ds, r'⟩, hds, h⟩ := Option.map_eq_some_iff.mp h
      obtain ⟨rfl, -⟩ := Prod.mk.inj h
      split
      · refine fits_nested fun hdepth => ⟨hdepth, fitsFields_iff.mpr (hf ?_ hds _ rfl)⟩
        rintro fs hfs f hmem
        obtain rfl := Option.some.inj hfs
        cases hmem
      · trivial
  · obtain ⟨r', -, h⟩ := Option.map_eq_some_iff.mp h
    obtain ⟨rfl, -⟩ := Prod.mk.inj h
    trivial
  · obtain ⟨r', -, h⟩ := Option.map_eq_some_iff.mp h
    obtain ⟨rfl, -⟩ := Prod.mk.inj h
    trivial
  · obtain ⟨r', -, h⟩ := Option.map_eq_some_iff.mp h
    obtain ⟨rfl, -⟩ := Prod.mk.inj h
    trivial
  · split at h
    · rename_i t r' ht
      obtain ⟨rfl, -⟩ := Prod.mk.inj (Option.some.inj h)
      cases hvalue : t.value with
      | none => trivial
      | some m => exact NumberText.value_inWord hvalue
    · cases h

lemma scanned_fits (fuel : Nat) : ValueFits fuel ∧ ItemsFit fuel ∧ FieldsFit fuel := by
  induction fuel with
  | zero =>
    refine ⟨?_, ?_, ?_⟩
    · intro depth cs d r h
      simp [scanValue] at h
    · intro depth items cs ds r _ h
      simp [scanItems] at h
    · intro depth fields ds cs r _ h
      simp [scanFields] at h
  | succ fuel ih =>
    obtain ⟨hv, hi, hf⟩ := ih
    exact ⟨valueFits_succ hi hf, itemsFit_succ hv hi, fieldsFit_succ hv hf⟩

lemma fits_of_scan? {s : String} {d : Document} {rest : List Char} (h : scan? s = some (d, rest)) :
    d.Fits 0 :=
  (scanned_fits _).1 h

end Document

namespace Json

structure Scanned (depth : Nat) (j : Json) : Prop where
  canonical : j.Canonical
  fits : j.document.Fits depth

lemma mem_of_mem_orderFields {fields : List (String × Json)} {f : String × Json}
    (h : f ∈ orderFields fields) : f ∈ fields :=
  List.mem_reverse.mp (List.mem_of_find?_eq_some (mem_orderFields_iff.mp h))

lemma fieldDocuments_eq (fields : List (String × Json)) :
    fieldDocuments fields = fields.map fun f => (f.1, f.2.document) := by
  induction fields with
  | nil => rfl
  | cons f fields ih => rw [fieldDocuments, ih, List.map_cons]

lemma scanned_object {depth : Nat} {fields : List (String × Json)}
    (hdepth : depth < Document.deepest) (hfields : ∀ f ∈ fields, f.2.Scanned (depth + 1)) :
    (object (orderFields fields)).Scanned depth := by
  have hordered : ∀ f ∈ orderFields fields, f.2.Scanned (depth + 1) := fun f hf =>
    hfields f (mem_of_mem_orderFields hf)
  refine ⟨⟨increasing_orderFields fields, ?_⟩, hdepth, ?_⟩
  · exact canonicalFields_iff.mpr fun f hf => (hordered f hf).canonical
  · rw [fieldDocuments_eq, Document.fitsFields_iff]
    intro g hg
    obtain ⟨f, hf, rfl⟩ := List.mem_map.mp hg
    exact (hordered f hf).fits

mutual

lemma scanned_of_value? {depth : Nat} {d : Document} {j : Json} (hd : d.Fits depth)
    (h : d.value? = some j) : j.Scanned depth := by
  cases d with
  | unreadable => cases h
  | null | bool | text =>
    obtain rfl := Option.some.inj h
    exact ⟨trivial, trivial⟩
  | number n =>
    obtain rfl := Option.some.inj h
    exact ⟨trivial, hd⟩
  | array items =>
    rw [Document.value?, Option.map_eq_some_iff] at h
    obtain ⟨js, hjs, rfl⟩ := h
    obtain ⟨hcanonical, hfits⟩ := scanned_of_itemValues? hd.2 hjs
    exact ⟨hcanonical, hd.1, hfits⟩
  | object fields =>
    rw [Document.value?, Option.map_eq_some_iff] at h
    obtain ⟨fs, hfs, rfl⟩ := h
    exact scanned_object hd.1 (scanned_of_fieldValues? hd.2 hfs)

lemma scanned_of_itemValues? {depth : Nat} {ds : List Document} {js : List Json}
    (hds : Document.FitsItems depth ds) (h : Document.itemValues? ds = some js) :
    CanonicalItems js ∧ Document.FitsItems depth (itemDocuments js) := by
  cases ds with
  | nil =>
    obtain rfl := Option.some.inj h
    exact ⟨trivial, trivial⟩
  | cons d ds =>
    rw [Document.itemValues?] at h
    split at h
    · rename_i j js' hj hjs
      obtain rfl := Option.some.inj h
      have hhead := scanned_of_value? hds.1 hj
      obtain ⟨hcanonical, hfits⟩ := scanned_of_itemValues? hds.2 hjs
      exact ⟨⟨hhead.canonical, hcanonical⟩, hhead.fits, hfits⟩
    · cases h

lemma scanned_of_fieldValues? {depth : Nat} {ds : List (String × Document)}
    {fs : List (String × Json)} (hds : Document.FitsFields depth ds)
    (h : Document.fieldValues? ds = some fs) : ∀ f ∈ fs, f.2.Scanned depth := by
  cases ds with
  | nil =>
    obtain rfl := Option.some.inj h
    simp
  | cons d ds =>
    obtain ⟨k, d⟩ := d
    rw [Document.fieldValues?] at h
    split at h
    · rename_i j fs' hj hfs
      obtain rfl := Option.some.inj h
      intro f hf
      rcases List.mem_cons.mp hf with rfl | hf
      · exact scanned_of_value? hds.1 hj
      · exact scanned_of_fieldValues? hds.2 hfs f hf
    · cases h

end

/-! What the text of a scanned value is scanned as. -/

lemma keys_spelledFields (depth : Nat) (fields : List (String × Json)) :
    (spelledFields depth fields).map (·.1) = fields.map (·.1) := by
  induction fields with
  | nil => rfl
  | cons f fields ih => rw [spelledFields, List.map_cons, List.map_cons, ih]

lemma keys_of_fieldValues? {ds : List (String × Document)} {fs : List (String × Json)}
    (h : Document.fieldValues? ds = some fs) : fs.map (·.1) = ds.map (·.1) := by
  induction ds generalizing fs with
  | nil =>
    obtain rfl := Option.some.inj h
    rfl
  | cons d ds ih =>
    obtain ⟨k, d⟩ := d
    rw [Document.fieldValues?] at h
    split at h
    · rename_i j fs' hj hfs
      obtain rfl := Option.some.inj h
      rw [List.map_cons, List.map_cons, ih hfs]
    · cases h

lemma map_orderFields_spelled {α : Type} {fields : List (String × Json)} (h : Increasing fields)
    (depth : Nat) (write : List (String × Json) → α) :
    (Document.fieldValues? (spelledFields depth fields)).map (fun fs => write (orderFields fs)) =
      (Document.fieldValues? (spelledFields depth fields)).map write := by
  refine Option.map_congr fun fs hfs => ?_
  have hincreasing : Increasing fs := by
    rw [Increasing, keys_of_fieldValues? hfs, keys_spelledFields]
    exact h
  rw [orderFields_of_increasing hincreasing]

lemma exists_map_eq_some_iff {α β : Type} {o : Option α} {f : α → β} {p : β → Prop} :
    (∃ b, o.map f = some b ∧ p b) ↔ ∃ a, o = some a ∧ p (f a) := by
  cases o <;> simp

lemma exists_itemValues?_cons {x : Json} {xs : List Json} {d : Document} {ds : List Document} :
    (∃ js, Document.itemValues? (d :: ds) = some js ∧ sameItems (x :: xs) js = true) ↔
      (∃ j, d.value? = some j ∧ x.same j = true) ∧
        ∃ js, Document.itemValues? ds = some js ∧ sameItems xs js = true := by
  rw [Document.itemValues?]
  cases d.value? <;> cases Document.itemValues? ds <;> simp [sameItems]

lemma exists_fieldValues?_cons {k : String} {x : Json} {xs : List (String × Json)} {d : Document}
    {ds : List (String × Document)} :
    (∃ fs, Document.fieldValues? ((k, d) :: ds) = some fs ∧ sameFields ((k, x) :: xs) fs = true) ↔
      (∃ j, d.value? = some j ∧ x.same j = true) ∧
        ∃ fs, Document.fieldValues? ds = some fs ∧ sameFields xs fs = true := by
  rw [Document.fieldValues?]
  cases d.value? <;> cases Document.fieldValues? ds <;> simp [sameFields]

mutual

lemma exists_value?_iff {depth : Nat} {j : Json} (hc : j.Canonical) (hf : j.document.Fits depth) :
    (∃ j', (j.spelled depth).value? = some j' ∧ j.same j' = true) ↔
      j.Numbers Number.Lossless := by
  cases j with
  | null => exact iff_of_true ⟨_, rfl, rfl⟩ trivial
  | bool b => exact iff_of_true ⟨_, rfl, beq_self_eq_true b⟩ trivial
  | string s => exact iff_of_true ⟨_, rfl, beq_self_eq_true s⟩ trivial
  | number n => exact Number.exists_value?_spelled_iff hf
  | array items =>
    obtain ⟨hdepth, hitems⟩ : depth < Document.deepest ∧
      Document.FitsItems (depth + 1) (itemDocuments items) := hf
    rw [spelled, Document.nested_of_lt hdepth, Document.value?, exists_map_eq_some_iff]
    exact exists_itemValues?_iff hc hitems
  | object fields =>
    obtain ⟨hdepth, hfields⟩ : depth < Document.deepest ∧
      Document.FitsFields (depth + 1) (fieldDocuments fields) := hf
    rw [spelled, Document.nested_of_lt hdepth, Document.value?, map_orderFields_spelled hc.1,
      exists_map_eq_some_iff]
    exact exists_fieldValues?_iff hc.2 hfields

lemma exists_itemValues?_iff {depth : Nat} {xs : List Json} (hc : CanonicalItems xs)
    (hf : Document.FitsItems depth (itemDocuments xs)) :
    (∃ js, Document.itemValues? (spelledItems depth xs) = some js ∧ sameItems xs js = true) ↔
      NumbersItems Number.Lossless xs := by
  cases xs with
  | nil => simp [spelledItems, Document.itemValues?, sameItems, NumbersItems]
  | cons x xs =>
    rw [spelledItems, exists_itemValues?_cons, exists_value?_iff hc.1 hf.1,
      exists_itemValues?_iff hc.2 hf.2, NumbersItems]

lemma exists_fieldValues?_iff {depth : Nat} {xs : List (String × Json)} (hc : CanonicalFields xs)
    (hf : Document.FitsFields depth (fieldDocuments xs)) :
    (∃ fs, Document.fieldValues? (spelledFields depth xs) = some fs ∧ sameFields xs fs = true) ↔
      NumbersFields Number.Lossless xs := by
  cases xs with
  | nil => simp [spelledFields, Document.fieldValues?, sameFields, NumbersFields]
  | cons x xs =>
    obtain ⟨k, x⟩ := x
    rw [spelledFields, exists_fieldValues?_cons, exists_value?_iff hc.1 hf.1,
      exists_fieldValues?_iff hc.2 hf.2, NumbersFields]

end

end Json

/-! Records. -/

namespace Json

lemma lookup_spelledFields (depth : Nat) (fields : List (String × Json)) (name : String) :
    (spelledFields depth fields).lookup name = (fields.lookup name).map (spelled depth) := by
  induction fields with
  | nil => rfl
  | cons f fields ih =>
    obtain ⟨k, x⟩ := f
    rw [spelledFields, lookup_cons, List.lookup_cons]
    by_cases hk : name = k
    · subst hk
      simp
    · rw [beq_false_of_ne hk, if_neg hk]
      exact ih

lemma record?_spelled {depth : Nat} (hdepth : depth < Document.deepest)
    {fields : List (String × Json)} (h : (fields.map (·.1)).Nodup) (names : List String) :
    ((object fields).spelled depth).record? names =
      some ⟨spelledFields (depth + 1) fields, false⟩ := by
  have honce : Document.onceEach names (spelledFields (depth + 1) fields) = true := by
    rw [Document.onceEach, List.all_eq_true]
    intro name _
    rw [← keys_spelledFields (depth + 1) fields] at h
    rw [decide_eq_true_eq, ← List.countP_eq_length_filter]
    have hcount := List.nodup_iff_count_le_one.mp h name
    rwa [List.count, List.countP_map] at hcount
  rw [spelled, Document.nested_of_lt hdepth, Document.record?, if_pos honce]

section Fields

variable {α : Type} {read : Document → Option α} {write : α → Json} {depth : Nat}
  {fields : List (String × Json)} {name : String}

lemma required_spelled {j : Json} {a : α} (hf : fields.lookup name = some j)
    (hr : read (j.spelled depth) = some a) :
    Record.required ⟨spelledFields depth fields, false⟩ name read = some a := by
  rw [Record.required, Record.get?, lookup_spelledFields, hf]
  exact hr

lemma withDefault_spelled {j : Json} {a default : α} (hf : fields.lookup name = some j)
    (hr : read (j.spelled depth) = some a) :
    Record.withDefault ⟨spelledFields depth fields, false⟩ name read default = some a := by
  rw [Record.withDefault, Record.get?, lookup_spelledFields, hf]
  exact hr

lemma optional_spelled {o : Option α} (hf : fields.lookup name = o.map write)
    (hn : ∀ a, (write a).spelled depth ≠ .null)
    (hr : ∀ a, o = some a → read ((write a).spelled depth) = some a) :
    Record.optional ⟨spelledFields depth fields, false⟩ name read = some o := by
  rw [Record.optional, Record.withDefault, Record.get?, lookup_spelledFields, hf]
  cases o with
  | none => rfl
  | some a =>
    have hread : Document.orNull? read ((write a).spelled depth) = some (some a) := by
      rw [Document.orNull?.eq_def]
      split
      · rename_i hnull
        exact absurd hnull (hn a)
      · rw [hr a rfl]
        rfl
    exact hread

lemma list?_spelled (hdepth : depth < Document.deepest) {xs : List α}
    (hr : ∀ x ∈ xs, read ((write x).spelled (depth + 1)) = some x) :
    Document.list? read ((array (xs.map write)).spelled depth) = some xs := by
  rw [spelled, Document.nested_of_lt hdepth, Document.list?]
  induction xs with
  | nil => rfl
  | cons x xs ih =>
    rw [List.map_cons, spelledItems, Document.allOf?, hr x List.mem_cons_self,
      ih fun y hy => hr y (List.mem_cons_of_mem _ hy)]

lemma texts?_spelled (hdepth : depth < Document.deepest) (texts : List String) :
    Document.list? Document.text? ((array (texts.map .string)).spelled depth) = some texts :=
  list?_spelled hdepth fun _ _ => rfl

lemma omittedTexts_spelled (hdepth : depth < Document.deepest) {texts : List String}
    (hf : fields.lookup name = if texts = [] then none else some (array (texts.map .string))) :
    Record.withDefault ⟨spelledFields depth fields, false⟩ name (Document.list? Document.text?) [] =
      some texts := by
  by_cases he : texts = []
  · rw [if_pos he] at hf
    rw [Record.withDefault, Record.get?, lookup_spelledFields, hf, he]
    rfl
  · rw [if_neg he] at hf
    exact withDefault_spelled hf (texts?_spelled hdepth texts)

end Fields

end Json

namespace Record

lemma mem_of_get? {r : Record} {name : String} {d : Document} (h : r.get? name = some d) :
    (name, d) ∈ r.given := by
  obtain ⟨before, after, hgiven, -⟩ := List.lookup_eq_some_iff.mp h
  rw [hgiven]
  exact List.mem_append_right _ List.mem_cons_self

lemma fits_of_record? {depth : Nat} {names : List String} {d : Document} {r : Record}
    (hd : d.Fits depth) (hr : d.record? names = some r) : ∀ f ∈ r.given, f.2.Fits (depth + 1) := by
  cases d with
  | object fields =>
    rw [Document.record?] at hr
    split at hr
    · obtain rfl := Option.some.inj hr
      exact Document.fitsFields_iff.mp hd.2
    · cases hr
  | array items =>
    rw [Document.record?] at hr
    split at hr
    · obtain rfl := Option.some.inj hr
      exact fun f hf => Document.fitsItems_iff.mp hd.2 f.2 (List.of_mem_zip hf).2
    · cases hr
  | unreadable | null | bool | number | text => cases hr

end Record

end AccessControl
