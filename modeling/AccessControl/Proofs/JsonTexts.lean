import AccessControl.Json.Document
import AccessControl.Proofs.NumberSpellings
import Mathlib.Data.List.DropRight

/-! What the written text of a value is scanned as: the value itself, but for containers nested too
deep and numbers whose text is not read back by itself. -/

namespace AccessControl

def Number.ReadsBack (n : Number) : Prop :=
  Json.ofText? (Json.number n).written = some (.number n)

def Number.reread (n : Number) : Number :=
  match Json.ofText? (Json.number n).written with
  | some (.number m) => m
  | _ => n

def Number.spelled (n : Number) : Document :=
  (Document.ofText? (Json.number n).written).getD .unreadable

lemma Number.ReadsBack.reread {n : Number} (h : n.ReadsBack) : n.reread = n := by
  have h : Json.ofText? (Json.number n).written = some (.number n) := h
  rw [Number.reread, h]

namespace Json

mutual

def Numbers (p : Number → Prop) : Json → Prop
  | .number n => p n
  | .array items => NumbersItems p items
  | .object fields => NumbersFields p fields
  | _ => True

def NumbersItems (p : Number → Prop) : List Json → Prop
  | [] => True
  | x :: xs => x.Numbers p ∧ NumbersItems p xs

def NumbersFields (p : Number → Prop) : List (String × Json) → Prop
  | [] => True
  | (_, x) :: xs => x.Numbers p ∧ NumbersFields p xs

end

mutual

def Reads : Json → Document → Prop
  | .null, d => d = .null
  | .bool b, d => d = .bool b
  | .number n, d => d = .unreadable ∨ d = .number n.reread
  | .string s, d => d = .text s
  | .array items, d => d = .unreadable ∨ ∃ ds, d = .array ds ∧ ReadsItems items ds
  | .object fields, d => d = .unreadable ∨ ∃ ds, d = .object ds ∧ ReadsFields fields ds

def ReadsItems : List Json → List Document → Prop
  | [], ds => ds = []
  | x :: xs, ds => ∃ d rest, ds = d :: rest ∧ x.Reads d ∧ ReadsItems xs rest

def ReadsFields : List (String × Json) → List (String × Document) → Prop
  | [], ds => ds = []
  | (k, x) :: xs, ds => ∃ d rest, ds = (k, d) :: rest ∧ x.Reads d ∧ ReadsFields xs rest

end

mutual

def spelled (depth : Nat) : Json → Document
  | .null => .null
  | .bool b => .bool b
  | .number n => n.spelled
  | .string s => .text s
  | .array items => Document.nested (depth + 1) (.array (spelledItems (depth + 1) items))
  | .object fields => Document.nested (depth + 1) (.object (spelledFields (depth + 1) fields))

def spelledItems (depth : Nat) : List Json → List Document
  | [] => []
  | x :: xs => x.spelled depth :: spelledItems depth xs

def spelledFields (depth : Nat) : List (String × Json) → List (String × Document)
  | [] => []
  | (k, x) :: xs => (k, x.spelled depth) :: spelledFields depth xs

end

end Json

namespace Document

/-! Strings. -/

lemma scanUnits_control {n : Nat} (h : n < 0x20) (units : List Nat) (rest : List Char) :
    scanUnits units (Json.escapedControl n ++ rest) = scanUnits (n :: units) rest := by
  rw [Json.escapedControl]
  split
  · subst n
    rfl
  split
  · subst n
    rfl
  split
  · subst n
    rfl
  split
  · subst n
    rfl
  split
  · subst n
    rfl
  · have hex : ∀ n < 0x20, hexUnit? '0' '0' (Nat.digitChar (n / 16)) (Nat.digitChar (n % 16)) =
        some n := by decide
    simp only [List.cons_append, List.nil_append, scanUnits, hex n h]

lemma scanUnits_escapedChar (c : Char) (units : List Nat) (rest : List Char) :
    scanUnits units (Json.escapedChar c ++ rest) = scanUnits (c.toNat :: units) rest := by
  rw [Json.escapedChar]
  split
  · subst c
    rfl
  · split
    · subst c
      rfl
    · split
      · exact scanUnits_control (by assumption) units rest
      · rename_i hq hb hc
        rw [List.singleton_append, scanUnits]
        · rw [if_neg (not_or.mpr ⟨hc, hb⟩)]
        · exact hq
        · exact fun _ _ _ _ _ h _ => hb h
        · exact fun _ _ h _ => hb h

lemma scanUnits_escaped (cs : List Char) (units : List Nat) (rest : List Char) :
    scanUnits units (cs.flatMap Json.escapedChar ++ '"' :: rest) =
      some ((cs.map Char.toNat).reverse ++ units, rest) := by
  induction cs generalizing units with
  | nil => rfl
  | cons c cs ih => simp [List.append_assoc, scanUnits_escapedChar, ih]

lemma joinUnits_chars (cs out : List Char) :
    joinUnits out (cs.map Char.toNat) = some (cs.reverse ++ out) := by
  induction cs generalizing out with
  | nil => rfl
  | cons c cs ih =>
    have hv : c.toNat < 0xD800 ∨ 0xDFFF < c.toNat ∧ c.toNat < 0x110000 := c.valid
    have ht : isTrailing c.toNat = false := by
      simp only [isTrailing, Bool.and_eq_false_imp, decide_eq_true_eq, decide_eq_false_iff_not]
      omega
    have hl : isLeading c.toNat = false := by
      simp only [isLeading, Bool.and_eq_false_imp, decide_eq_true_eq, decide_eq_false_iff_not]
      omega
    rw [List.map_cons, joinUnits.eq_def]
    simp [ht, hl, ih, Char.ofNat_toNat]

lemma scanString_written (s : String) (rest : List Char) :
    scanString (s.toList.flatMap Json.escapedChar ++ '"' :: rest) = some (some s, rest) := by
  have hj : joinUnits [] (s.toList.map Char.toNat).reverse = some s.toList := by
    rw [← List.map_reverse, joinUnits_chars]
    simp
  simp [scanString, scanUnits_escaped, hj, String.ofList_toList]

/-! Values. -/

@[simp]
lemma skipBlank_skipBlank (cs : List Char) : skipBlank (skipBlank cs) = skipBlank cs :=
  List.dropWhile_idempotent _ cs

lemma scanValue_skipBlank (depth fuel : Nat) (cs : List Char) :
    scanValue depth fuel (skipBlank cs) = scanValue depth fuel cs := by
  cases fuel with
  | zero => rfl
  | succ fuel => rw [scanValue, scanValue, skipBlank_skipBlank]

lemma scanItems_skipBlank (depth fuel : Nat) (items : List Document) (cs : List Char) :
    scanItems depth fuel items (skipBlank cs) = scanItems depth fuel items cs := by
  cases fuel with
  | zero => rfl
  | succ fuel => rw [scanItems, scanItems, scanValue_skipBlank]

lemma scanFields_skipBlank (depth fuel : Nat) (fields : Option (List (String × Document)))
    (cs : List Char) :
    scanFields depth fuel fields (skipBlank cs) = scanFields depth fuel fields cs := by
  cases fuel with
  | zero => rfl
  | succ fuel => rw [scanFields, scanFields, skipBlank_skipBlank]

lemma skipBlank_writtenString (s : String) (rest : List Char) :
    skipBlank (Json.writtenString s ++ rest) =
      '"' :: (s.toList.flatMap Json.escapedChar ++ '"' :: rest) := by
  simp [skipBlank, Json.writtenString]

def BeginsNumber (c : Char) : Prop :=
  c ≠ '"' ∧ c ≠ '[' ∧ c ≠ '\x7b' ∧ c ≠ 't' ∧ c ≠ 'f' ∧ c ≠ 'n'

lemma scanValue_number {depth fuel : Nat} {cs cs' : List Char} {c : Char}
    (h : skipBlank cs = c :: cs') (hc : BeginsNumber c) :
    scanValue depth (fuel + 1) cs =
      (NumberText.scan (c :: cs')).map fun (t, r) => ((t.value.map number).getD unreadable, r) := by
  obtain ⟨h₁, h₂, h₃, h₄, h₅, h₆⟩ := hc
  rw [scanValue, h]
  simp only
  split <;> simp_all
  cases NumberText.scan (c :: cs') <;> rfl

end Document

namespace Number

open Document

variable {n : Number} {rest r : List Char}

lemma start_of_scan {c : Char} {cs : List Char} {t : NumberText}
    (h : NumberText.scan (c :: cs) = some (t, r)) : c = '-' ∨ c.isDigit = true := by
  rw [NumberText.scan_cons] at h
  split at h
  · exact Or.inl (by assumption)
  · refine Or.inr ?_
    by_contra hc
    simp [NumberText.scanUnsigned, NumberText.spanDigits, hc] at h

lemma exists_start (n : Number) :
    ∃ c cs, n.written.toList = c :: cs ∧ (c = '-' ∨ c.isDigit = true) := by
  obtain ⟨t, ht⟩ := n.scan_written
  cases hcs : n.written.toList with
  | nil =>
    rw [hcs] at ht
    simp [NumberText.scan, NumberText.spanDigits] at ht
  | cons c cs => exact ⟨c, cs, rfl, start_of_scan (hcs ▸ ht)⟩

section start

variable {c x : Char} (h : c = '-' ∨ c.isDigit = true)

include h

lemma ne_of_start (hx : x ≠ '-') (hd : x.isDigit = false) : c ≠ x := by
  rintro rfl
  simp [hx, hd] at h

lemma beginsNumber_of_start : BeginsNumber c := by
  refine ⟨?_, ?_, ?_, ?_, ?_, ?_⟩
  all_goals exact ne_of_start h (by decide) rfl

lemma skipBlank_of_start (cs : List Char) : skipBlank (c :: cs) = c :: cs := by
  have hne : ∀ x : Char, x ≠ '-' → x.isDigit = false → c ≠ x := fun _ => ne_of_start h
  apply List.dropWhile_cons_of_neg
  simp [hne ' ' (by decide) rfl, hne '\n' (by decide) rfl, hne '\t' (by decide) rfl,
    hne '\r' (by decide) rfl]

end start

lemma scanValue_of_scan {t : NumberText} (ht : NumberText.scan n.written.toList = some (t, []))
    (he : EndsValue rest) (depth fuel : Nat) :
    scanValue depth (fuel + 1) (n.written.toList ++ rest) =
      some ((t.value.map Document.number).getD .unreadable, rest) := by
  obtain ⟨c, cs, hcs, hc⟩ := n.exists_start
  have hskip : skipBlank (n.written.toList ++ rest) = c :: (cs ++ rest) := by
    rw [hcs, List.cons_append, skipBlank_of_start hc]
  rw [scanValue_number hskip (beginsNumber_of_start hc), ← List.cons_append, ← hcs,
    NumberText.scan_append he ht]
  rfl

lemma spelled_eq {t : NumberText} (ht : NumberText.scan n.written.toList = some (t, [])) :
    n.spelled = (t.value.map Document.number).getD .unreadable := by
  have hscan := scanValue_of_scan ht endsValue_nil 0 (2 * n.written.toList.length + 1)
  rw [List.append_nil] at hscan
  rw [spelled, Document.ofText?, scan?, Json.written, String.toList_ofList, Json.writtenChars,
    hscan]
  rfl

lemma value?_spelled (n : Number) : n.spelled.value? = Json.ofText? (Json.number n).written := by
  rw [spelled, Json.ofText?]
  cases Document.ofText? (Json.number n).written <;> rfl

lemma reread_eq {t : NumberText} {m : Number}
    (h : NumberText.scan n.written.toList = some (t, [])) (hm : t.value = some m) :
    n.reread = m := by
  rw [reread, ← value?_spelled, spelled_eq h, hm]
  rfl

lemma scanValue_written (n : Number) (he : EndsValue rest) (depth fuel : Nat) :
    scanValue depth (fuel + 1) (n.written.toList ++ rest) = some (n.spelled, rest) := by
  obtain ⟨t, ht⟩ := n.scan_written
  rw [scanValue_of_scan ht he, spelled_eq ht]

lemma reads_spelled (n : Number) : (Json.number n).Reads n.spelled := by
  obtain ⟨t, ht⟩ := n.scan_written
  rw [spelled_eq ht]
  cases hv : t.value with
  | none => exact Or.inl rfl
  | some m => exact Or.inr (by rw [reread_eq ht hv]; rfl)

end Number

namespace Document

lemma endsValue_items (xs : List Json) (rest : List Char) :
    EndsValue (Json.writtenItems xs ++ rest) := by
  cases xs <;> simp [EndsValue, Json.writtenItems]

lemma endsValue_fields (xs : List (String × Json)) (rest : List Char) :
    EndsValue (Json.writtenFields xs ++ rest) := by
  cases xs <;> simp [EndsValue, Json.writtenFields]

lemma starts (j : Json) (rest : List Char) :
    ∃ c cs, skipBlank (j.writtenChars ++ rest) = c :: cs ∧ c ≠ ']' := by
  cases j with
  | number n =>
    obtain ⟨c, cs, hcs, hc⟩ := n.exists_start
    refine ⟨c, cs ++ rest, ?_, Number.ne_of_start hc (by decide) rfl⟩
    rw [Json.writtenChars, hcs, List.cons_append, Number.skipBlank_of_start hc]
  | bool b => cases b <;> exact ⟨_, _, rfl, by decide⟩
  | array items => cases items <;> exact ⟨_, _, rfl, by decide⟩
  | object fields =>
    cases fields with
    | nil => exact ⟨_, _, rfl, by decide⟩
    | cons f fields => exact ⟨_, _, rfl, by decide⟩
  | null => exact ⟨_, _, rfl, by decide⟩
  | string s => exact ⟨_, _, rfl, by decide⟩

/-! Two values of fuel for every character are enough. -/

def ValueScans (fuel : Nat) : Prop :=
  ∀ {depth : Nat} {j : Json} {rest : List Char}, 2 * j.writtenChars.length ≤ fuel →
    EndsValue rest → scanValue depth fuel (j.writtenChars ++ rest) = some (j.spelled depth, rest)

def ItemsScan (fuel : Nat) : Prop :=
  ∀ {depth : Nat} {items : List Document} {x : Json} {xs : List Json} {rest : List Char},
    2 * (x.writtenChars.length + (Json.writtenItems xs).length) < fuel →
    scanItems depth fuel items (x.writtenChars ++ (Json.writtenItems xs ++ rest)) =
      some (items.reverse ++ Json.spelledItems depth (x :: xs), rest)

def FieldsScan (fuel : Nat) : Prop :=
  ∀ {depth : Nat} {fields : List (String × Document)} {k : String} {x : Json}
    {xs : List (String × Json)} {rest : List Char},
    2 * (x.writtenChars.length + (Json.writtenFields xs).length) < fuel →
    scanFields depth fuel (some fields)
      (Json.writtenString k ++ ':' :: (x.writtenChars ++ (Json.writtenFields xs ++ rest))) =
        some (some (fields.reverse ++ Json.spelledFields depth ((k, x) :: xs)), rest)

lemma itemsScan_succ {fuel : Nat} (hv : ValueScans fuel) (hi : ItemsScan fuel) :
    ItemsScan (fuel + 1) := by
  intro depth items x xs rest hfuel
  rw [scanItems, hv (by omega) (endsValue_items xs rest)]
  cases xs with
  | nil => simp [Json.writtenItems, Json.spelledItems, skipBlank]
  | cons y ys =>
    have hrest : 2 * (y.writtenChars.length + (Json.writtenItems ys).length) < fuel := by
      simp only [Json.writtenItems, List.length_cons, List.length_append] at hfuel
      omega
    have hskip : skipBlank (Json.writtenItems (y :: ys) ++ rest) =
        ',' :: (y.writtenChars ++ (Json.writtenItems ys ++ rest)) := by
      simp [skipBlank, Json.writtenItems]
    simp only [hskip, hi hrest, List.reverse_cons, List.append_assoc]
    rfl

lemma fieldsScan_succ {fuel : Nat} (hv : ValueScans fuel) (hf : FieldsScan fuel) :
    FieldsScan (fuel + 1) := by
  intro depth fields k x xs rest hfuel
  have hcolon : ∀ after, skipBlank (':' :: after) = ':' :: after := fun _ => rfl
  rw [scanFields, skipBlank_writtenString]
  simp only [scanString_written, hcolon]
  rw [hv (by omega) (endsValue_fields xs rest)]
  cases xs with
  | nil => simp [Json.writtenFields, Json.spelledFields, skipBlank]
  | cons f ys =>
    obtain ⟨k', y⟩ := f
    have hrest : 2 * (y.writtenChars.length + (Json.writtenFields ys).length) < fuel := by
      simp only [Json.writtenFields, List.length_cons, List.length_append] at hfuel
      omega
    have hskip : skipBlank (Json.writtenFields ((k', y) :: ys) ++ rest) = ',' ::
        (Json.writtenString k' ++ ':' :: (y.writtenChars ++ (Json.writtenFields ys ++ rest))) := by
      simp [skipBlank, Json.writtenFields]
    simp only [hskip, hf hrest, List.reverse_cons, List.append_assoc]
    rfl

lemma valueScans_succ {fuel : Nat} (hi : ItemsScan fuel) (hf : FieldsScan fuel) :
    ValueScans (fuel + 1) := by
  intro depth j rest hfuel he
  cases j with
  | null => rfl
  | bool b => cases b <;> rfl
  | number n => exact n.scanValue_written he depth fuel
  | string s =>
    rw [scanValue, Json.writtenChars, skipBlank_writtenString]
    simp only [scanString_written]
    rfl
  | array items =>
    cases items with
    | nil => rfl
    | cons x xs =>
      have hs : skipBlank ((Json.array (x :: xs)).writtenChars ++ rest) =
          '[' :: (x.writtenChars ++ (Json.writtenItems xs ++ rest)) := by
        simp [skipBlank, Json.writtenChars]
      have hrest : 2 * (x.writtenChars.length + (Json.writtenItems xs).length) < fuel := by
        simp only [Json.writtenChars, List.length_cons, List.length_append] at hfuel
        omega
      obtain ⟨c, cs, hc, hne⟩ := starts x (Json.writtenItems xs ++ rest)
      rw [scanValue, hs]
      simp only
      split
      · rename_i hc'
        exact absurd (List.cons.inj (hc.symm.trans hc')).1 hne
      · rw [scanItems_skipBlank, hi hrest]
        rfl
  | object fields =>
    cases fields with
    | nil => rfl
    | cons f xs =>
      obtain ⟨k, x⟩ := f
      have hs : skipBlank ((Json.object ((k, x) :: xs)).writtenChars ++ rest) =
          '\x7b' :: (Json.writtenString k ++
            ':' :: (x.writtenChars ++ (Json.writtenFields xs ++ rest))) := by
        simp [skipBlank, Json.writtenChars]
      have hrest : 2 * (x.writtenChars.length + (Json.writtenFields xs).length) < fuel := by
        simp only [Json.writtenChars, List.length_cons, List.length_append] at hfuel
        omega
      rw [scanValue, hs]
      simp only
      split
      · rename_i hk
        rw [skipBlank_writtenString] at hk
        exact absurd (List.cons.inj hk).1 (by decide)
      · rw [scanFields_skipBlank, hf hrest]
        rfl

lemma scans (fuel : Nat) : ValueScans fuel ∧ ItemsScan fuel ∧ FieldsScan fuel := by
  induction fuel with
  | zero =>
    refine ⟨?_, fun hfuel => absurd hfuel (Nat.not_lt_zero _),
      fun hfuel => absurd hfuel (Nat.not_lt_zero _)⟩
    intro depth j rest hfuel he
    obtain ⟨c, cs, hcs, -⟩ := starts j []
    have hnil : j.writtenChars = [] := List.eq_nil_of_length_eq_zero (by omega)
    simp [hnil, skipBlank] at hcs
  | succ fuel ih =>
    obtain ⟨hv, hi, hf⟩ := ih
    exact ⟨valueScans_succ hi hf, itemsScan_succ hv hi, fieldsScan_succ hv hf⟩

end Document

namespace Json

lemma scan?_written (j : Json) : Document.scan? j.written = some (j.spelled 0, []) := by
  have hscan : Document.scanValue 0 (2 * j.writtenChars.length + 2) (j.writtenChars ++ []) =
      some (j.spelled 0, []) := (Document.scans _).1 (Nat.le_add_right _ 2) endsValue_nil
  rw [List.append_nil] at hscan
  rw [Document.scan?, written, String.toList_ofList]
  exact hscan

lemma document?_written (j : Json) : Document.ofText? j.written = some (j.spelled 0) := by
  rw [Document.ofText?, j.scan?_written]
  rfl

mutual

lemma reads_spelled (j : Json) (depth : Nat) : j.Reads (j.spelled depth) := by
  cases j with
  | null | bool | string => rfl
  | number n => exact n.reads_spelled
  | array items =>
    rw [spelled, Document.nested]
    split
    · exact Or.inr ⟨_, rfl, readsItems_spelled items (depth + 1)⟩
    · exact Or.inl rfl
  | object fields =>
    rw [spelled, Document.nested]
    split
    · exact Or.inr ⟨_, rfl, readsFields_spelled fields (depth + 1)⟩
    · exact Or.inl rfl

lemma readsItems_spelled (xs : List Json) (depth : Nat) :
    ReadsItems xs (spelledItems depth xs) := by
  cases xs with
  | nil => rfl
  | cons x xs => exact ⟨_, _, rfl, reads_spelled x depth, readsItems_spelled xs depth⟩

lemma readsFields_spelled (xs : List (String × Json)) (depth : Nat) :
    ReadsFields xs (spelledFields depth xs) := by
  cases xs with
  | nil => rfl
  | cons f xs =>
    obtain ⟨k, x⟩ := f
    exact ⟨_, _, rfl, reads_spelled x depth, readsFields_spelled xs depth⟩

end

lemma reads_of_written {j : Json} {d : Document} (h : Document.ofText? j.written = some d) :
    j.Reads d := by
  rw [j.document?_written] at h
  obtain rfl := Option.some.inj h
  exact j.reads_spelled 0

end Json

end AccessControl
