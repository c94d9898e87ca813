import AccessControl.CaveatCheck
import AccessControl.Proofs.JsonTexts
import Std.Data.String.ToInt

/-! Among values without floating-point numbers the text tells the value, wherever in a longer text it
stands. So values that match by their texts are equal, or one of them is a string that spells out the
other one. -/

namespace AccessControl

open Document

def Document.outline : Document → Document
  | .number _ => .unreadable
  | .array ds => .array (ds.map fun _ => .null)
  | .object ds => .object (ds.map fun f => (f.1, .null))
  | d => d

def Number.Whole (n : Number) : Prop :=
  ∃ v, n = .integer v

namespace Json

def outline : Json → Document
  | .null => .null
  | .bool b => .bool b
  | .number _ => .unreadable
  | .string s => .text s
  | .array xs => .array (xs.map fun _ => .null)
  | .object xs => .object (xs.map fun f => (f.1, .null))

variable {x y : Json} {rest rest' : List Char}

lemma outline_spelledItems (depth : Nat) (xs : List Json) :
    (spelledItems depth xs).map (fun _ => Document.null) = xs.map fun _ => .null := by
  induction xs with
  | nil => rfl
  | cons x xs ih => rw [spelledItems, List.map_cons, List.map_cons, ih]

lemma outline_spelledFields (depth : Nat) (xs : List (String × Json)) :
    (spelledFields depth xs).map (fun f => (f.1, Document.null)) =
      xs.map fun f => (f.1, .null) := by
  induction xs with
  | nil => rfl
  | cons x xs ih => rw [spelledFields, List.map_cons, List.map_cons, ih]

lemma outline_spelled (x : Json) : (x.spelled 0).outline = x.outline := by
  have hopen : ∀ d, nested (0 + 1) d = d := fun d => if_pos (by decide)
  cases x with
  | null | bool | string => rfl
  | number n =>
    rw [spelled, outline]
    rcases n.reads_spelled with h | h <;> rw [h] <;> rfl
  | array xs => rw [spelled, hopen, Document.outline, outline_spelledItems, outline]
  | object xs => rw [spelled, hopen, Document.outline, outline_spelledFields, outline]

lemma outline_of_written (hr : EndsValue rest) (hr' : EndsValue rest')
    (h : x.writtenChars ++ rest = y.writtenChars ++ rest') :
    x.outline = y.outline ∧ rest = rest' := by
  let fuel := 2 * x.writtenChars.length + 2 * y.writtenChars.length
  have hx : scanValue 0 fuel (x.writtenChars ++ rest) = some (x.spelled 0, rest) :=
    (scans fuel).1 (Nat.le_add_right _ _) hr
  have hy : scanValue 0 fuel (y.writtenChars ++ rest') = some (y.spelled 0, rest') :=
    (scans fuel).1 (Nat.le_add_left _ _) hr'
  rw [h, hy] at hx
  obtain ⟨hspelled, hrest⟩ := Prod.mk.inj (Option.some.inj hx)
  exact ⟨by rw [← outline_spelled, ← outline_spelled, hspelled], hrest.symm⟩

lemma number_of_written {n m : Number} (hn : n.Whole) (hm : m.Whole)
    (h : n.written.toList = m.written.toList) : n = m := by
  obtain ⟨v, rfl⟩ := hn
  obtain ⟨w, rfl⟩ := hm
  exact congrArg Number.integer (Int.repr_inj.mp (String.toList_inj.mp h))

lemma items_of_written {xs ys : List Json} (h : (array xs).writtenChars = (array ys).writtenChars)
    (hl : xs.length = ys.length) : writtenItems xs = writtenItems ys := by
  cases xs with
  | nil => rw [List.eq_nil_of_length_eq_zero hl.symm]
  | cons x xs =>
    cases ys with
    | nil => cases hl
    | cons y ys => simpa [writtenChars, writtenItems] using h

lemma fields_of_written {xs ys : List (String × Json)}
    (h : (object xs).writtenChars = (object ys).writtenChars)
    (hk : xs.map (·.1) = ys.map (·.1)) : writtenFields xs = writtenFields ys := by
  cases xs with
  | nil => rw [List.map_eq_nil_iff.mp hk.symm]
  | cons x xs =>
    cases ys with
    | nil => cases hk
    | cons y ys => simpa [writtenChars, writtenFields] using h

mutual

lemma eq_of_written {x y : Json} {rest rest' : List Char} (hx : x.Numbers Number.Whole)
    (hy : y.Numbers Number.Whole) (hr : EndsValue rest) (hr' : EndsValue rest')
    (h : x.writtenChars ++ rest = y.writtenChars ++ rest') : x = y ∧ rest = rest' := by
  obtain ⟨houtline, rfl⟩ := outline_of_written hr hr' h
  have htext : x.writtenChars = y.writtenChars := List.append_cancel_right h
  refine ⟨?_, rfl⟩
  cases x with
  | null => cases y <;> simp [outline] at houtline ⊢
  | bool b => cases y <;> simp [outline] at houtline ⊢; exact houtline
  | string s => cases y <;> simp [outline] at houtline ⊢; exact houtline
  | number n =>
    cases y with
    | number m => rw [number_of_written hx hy htext]
    | _ => simp [outline] at houtline
  | array xs =>
    cases y with
    | array ys =>
      have hl : xs.length = ys.length := by
        simpa using congrArg List.length (Document.array.inj houtline)
      rw [eq_of_writtenItems hx hy hl (congrArg (· ++ []) (items_of_written htext hl))]
    | _ => simp [outline] at houtline
  | object xs =>
    cases y with
    | object ys =>
      have hk : xs.map (·.1) = ys.map (·.1) := by
        simpa [Function.comp_def] using congrArg (List.map (·.1)) (Document.object.inj houtline)
      rw [eq_of_writtenFields hx hy hk (congrArg (· ++ []) (fields_of_written htext hk))]
    | _ => simp [outline] at houtline

lemma eq_of_writtenItems {xs ys : List Json} {rest rest' : List Char}
    (hx : NumbersItems Number.Whole xs) (hy : NumbersItems Number.Whole ys)
    (hl : xs.length = ys.length) (h : writtenItems xs ++ rest = writtenItems ys ++ rest') :
    xs = ys := by
  cases xs with
  | nil => exact (List.eq_nil_of_length_eq_zero hl.symm).symm
  | cons x xs =>
    cases ys with
    | nil => cases hl
    | cons y ys =>
      simp only [writtenItems, List.cons_append, List.append_assoc, List.cons.injEq, true_and] at h
      obtain ⟨hhead, hrest⟩ := eq_of_written hx.1 hy.1 (endsValue_items xs rest)
        (endsValue_items ys rest') h
      rw [hhead, eq_of_writtenItems hx.2 hy.2 (Nat.succ.inj hl) hrest]

lemma eq_of_writtenFields {xs ys : List (String × Json)} {rest rest' : List Char}
    (hx : NumbersFields Number.Whole xs) (hy : NumbersFields Number.Whole ys)
    (hk : xs.map (·.1) = ys.map (·.1))
    (h : writtenFields xs ++ rest = writtenFields ys ++ rest') : xs = ys := by
  cases xs with
  | nil => exact (List.map_eq_nil_iff.mp hk.symm).symm
  | cons x xs =>
    cases ys with
    | nil => cases hk
    | cons y ys =>
      obtain ⟨k, x⟩ := x
      obtain ⟨k', y⟩ := y
      obtain ⟨rfl, hkeys⟩ := List.cons.inj hk
      simp only [writtenFields, List.cons_append, List.append_assoc, List.cons.injEq, true_and,
        List.append_cancel_left_eq] at h
      obtain ⟨hhead, hrest⟩ := eq_of_written hx.1 hy.1 (endsValue_fields xs rest)
        (endsValue_fields ys rest') h
      rw [hhead, eq_of_writtenFields hx.2 hy.2 hkeys hrest]

end

lemma written_inj (hx : x.Numbers Number.Whole) (hy : y.Numbers Number.Whole) :
    x.written = y.written ↔ x = y := by
  refine ⟨fun h => ?_, congrArg written⟩
  have htext : x.writtenChars ++ [] = y.writtenChars ++ [] := by
    rw [String.ofList_injective h]
  exact (eq_of_written hx hy endsValue_nil endsValue_nil htext).1

mutual

lemma same_iff {x y : Json} (hx : x.Numbers Number.Whole) : x.same y = true ↔ x = y := by
  cases x with
  | null => cases y <;> simp [same]
  | bool b => cases y <;> simp [same]
  | string s => cases y <;> simp [same]
  | number n =>
    obtain ⟨v, rfl⟩ := hx
    cases y with
    | number m => cases m <;> simp [same, Number.same]
    | _ => simp [same]
  | array xs =>
    cases y with
    | array ys => rw [same, sameItems_iff hx, array.injEq]
    | _ => simp [same]
  | object xs =>
    cases y with
    | object ys => rw [same, sameFields_iff hx, object.injEq]
    | _ => simp [same]

lemma sameItems_iff {xs ys : List Json} (hx : NumbersItems Number.Whole xs) :
    sameItems xs ys = true ↔ xs = ys := by
  cases xs with
  | nil => cases ys <;> simp [sameItems]
  | cons x xs =>
    cases ys with
    | nil => simp [sameItems]
    | cons y ys =>
      rw [sameItems, Bool.and_eq_true, same_iff hx.1, sameItems_iff hx.2, List.cons.injEq]

lemma sameFields_iff {xs ys : List (String × Json)} (hx : NumbersFields Number.Whole xs) :
    sameFields xs ys = true ↔ xs = ys := by
  cases xs with
  | nil => cases ys <;> simp [sameFields]
  | cons x xs =>
    cases ys with
    | nil => simp [sameFields]
    | cons y ys =>
      obtain ⟨k, x⟩ := x
      obtain ⟨k', y⟩ := y
      rw [sameFields, Bool.and_eq_true, Bool.and_eq_true, beq_iff_eq, same_iff hx.1,
        sameFields_iff hx.2, List.cons.injEq, Prod.mk.injEq]

end

lemma plainText_of_not_string (h : ∀ s, x ≠ .string s) : x.plainText = x.written := by
  cases x with
  | string s => exact absurd rfl (h s)
  | _ => rfl

/-- Two values without floating-point numbers match exactly when they are equal, or when one of them
is a string, the other one is not, and the string is the text of that other one. -/
theorem agrees_iff (hx : x.Numbers Number.Whole) (hy : y.Numbers Number.Whole) :
    x.agrees y = true ↔ x = y ∨
      (∃ s, x = .string s ∧ (∀ t, y ≠ .string t) ∧ s = y.written) ∨
      (∃ s, y = .string s ∧ (∀ t, x ≠ .string t) ∧ s = x.written) := by
  rw [agrees, Bool.or_eq_true, same_iff hx, beq_iff_eq]
  by_cases hs : ∃ s, x = .string s
  · obtain ⟨s, rfl⟩ := hs
    by_cases ht : ∃ t, y = .string t
    · obtain ⟨t, rfl⟩ := ht
      simp [plainText]
    · have ht : ∀ t, y ≠ .string t := fun t h => ht ⟨t, h⟩
      simp [plainText, ht]
  · have hs : ∀ s, x ≠ .string s := fun s h => hs ⟨s, h⟩
    by_cases ht : ∃ t, y = .string t
    · obtain ⟨t, rfl⟩ := ht
      simp [plainText, hs, eq_comm]
    · have ht : ∀ t, y ≠ .string t := fun t h => ht ⟨t, h⟩
      simp [plainText_of_not_string hs, plainText_of_not_string ht, written_inj hx hy, hs, ht]

def clearance : Json :=
  .array [.object [], .object [("level", .nat 5), ("note", .string "5")], .array [.null]]

theorem agrees_iff_clearance :
    clearance.Numbers Number.Whole ∧
    clearance.agrees
      (.string "[\x7b\x7d,\x7b\"level\":5,\"note\":\"5\"\x7d,[null]]") = true ∧
    clearance.agrees (.array [.object [], .object [("level", .nat 5), ("note", .nat 5)]]) =
      false := by
  have hx : clearance.Numbers Number.Whole :=
    ⟨trivial, ⟨⟨_, rfl⟩, trivial, trivial⟩, ⟨trivial, trivial⟩, trivial⟩
  have hy : (Json.array [.object [], .object [("level", .nat 5), ("note", .nat 5)]]).Numbers
      Number.Whole := ⟨trivial, ⟨⟨_, rfl⟩, ⟨_, rfl⟩, trivial⟩, trivial⟩
  refine ⟨hx, ?_, ?_⟩
  · have hs : ∀ s, (Json.string s).Numbers Number.Whole := fun _ => trivial
    refine (agrees_iff hx (hs _)).mpr (Or.inr (Or.inr ⟨_, rfl, by simp [clearance], ?_⟩))
    decide +kernel
  · rw [Bool.eq_false_iff, ne_eq, agrees_iff hx hy]
    simp [clearance]

end Json

end AccessControl
