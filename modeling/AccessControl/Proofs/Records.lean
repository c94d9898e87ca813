import AccessControl.Json.Record
import AccessControl.Proofs.JsonTexts
import Mathlib.Data.List.Nodup

/-! What a record finds in a document that was read from the text of an object. -/

namespace AccessControl

namespace Json

variable {key : String} {value : Json} {fields : List (String × Json)}

def Increasing (fields : List (String × Json)) : Prop :=
  (fields.map (·.1)).Pairwise (· < ·)

lemma mem_putField (h : Increasing fields) {f : String × Json} :
    f ∈ putField key value fields ↔ f = (key, value) ∨ f ∈ fields ∧ f.1 ≠ key := by
  induction fields with
  | nil => simp [putField]
  | cons g rest ih =>
    obtain ⟨k, v⟩ := g
    obtain ⟨hk, hrest⟩ := List.pairwise_cons.mp h
    have hne : ∀ f ∈ rest, f.1 ≠ k := fun f hf he =>
      String.lt_irrefl k (he ▸ hk f.1 (List.mem_map_of_mem hf))
    rw [putField]
    split
    · rename_i hlt
      have hbelow : ∀ f ∈ (k, v) :: rest, f.1 ≠ key := by
        intro f hf he
        rcases List.mem_cons.mp hf with rfl | hf
        · exact String.lt_irrefl key (he ▸ hlt)
        · exact String.lt_irrefl key (String.lt_trans hlt (he ▸ hk f.1 (List.mem_map_of_mem hf)))
      rw [List.mem_cons]
      exact or_congr_right ⟨fun hf => ⟨hf, hbelow f hf⟩, And.left⟩
    · split
      · rename_i he
        subst he
        simp only [List.mem_cons]
        constructor
        · rintro (rfl | hf)
          · exact Or.inl rfl
          · exact Or.inr ⟨Or.inr hf, hne f hf⟩
        · rintro (rfl | ⟨rfl | hf, hkey⟩)
          · exact Or.inl rfl
          · exact absurd rfl hkey
          · exact Or.inr hf
      · rename_i hne'
        rw [List.mem_cons, ih hrest, List.mem_cons]
        constructor
        · rintro (rfl | rfl | ⟨hf, hkey⟩)
          · exact Or.inr ⟨Or.inl rfl, Ne.symm hne'⟩
          · exact Or.inl rfl
          · exact Or.inr ⟨Or.inr hf, hkey⟩
        · rintro (rfl | ⟨rfl | hf, hkey⟩)
          · exact Or.inr (Or.inl rfl)
          · exact Or.inl rfl
          · exact Or.inr (Or.inr ⟨hf, hkey⟩)

lemma increasing_putField (h : Increasing fields) : Increasing (putField key value fields) := by
  induction fields with
  | nil => simp [putField, Increasing]
  | cons g rest ih =>
    obtain ⟨k, v⟩ := g
    obtain ⟨hk, hrest⟩ := List.pairwise_cons.mp h
    rw [putField]
    split
    · rename_i hlt
      refine List.pairwise_cons.mpr ⟨fun k' hk' => ?_, h⟩
      rcases List.mem_cons.mp hk' with rfl | hk'
      · exact hlt
      · exact String.lt_trans hlt (hk k' hk')
    · split
      · rename_i he
        subst he
        exact h
      · rename_i hlt hne
        have hlt : k < key := by
          by_contra hn
          exact hne (String.le_antisymm (String.not_lt.mp hn) (String.not_lt.mp hlt))
        refine List.pairwise_cons.mpr ⟨fun k' hk' => ?_, ih hrest⟩
        obtain ⟨f, hf, rfl⟩ := List.mem_map.mp hk'
        rcases (mem_putField hrest).mp hf with rfl | ⟨hf, -⟩
        · exact hlt
        · exact hk f.1 (List.mem_map_of_mem hf)

lemma increasing_foldl (fields : List (String × Json)) {out : List (String × Json)}
    (h : Increasing out) : Increasing (fields.foldl (fun out f => putField f.1 f.2 out) out) := by
  induction fields generalizing out with
  | nil => exact h
  | cons f rest ih => exact ih (increasing_putField h)

lemma increasing_orderFields (fields : List (String × Json)) : Increasing (orderFields fields) :=
  increasing_foldl fields List.Pairwise.nil

lemma mem_orderFields_iff {f : String × Json} :
    f ∈ orderFields fields ↔ fields.reverse.find? (·.1 == f.1) = some f := by
  induction fields using List.reverseRecOn with
  | nil => simp [orderFields]
  | append_singleton rest g ih =>
    have hput : orderFields (rest ++ [g]) = putField g.1 g.2 (orderFields rest) := by
      rw [orderFields, List.foldl_append]
      rfl
    rw [hput, mem_putField (increasing_orderFields rest), ih, List.reverse_append,
      List.reverse_singleton, List.singleton_append]
    have hpair : (g.1, g.2) = g := rfl
    by_cases hk : g.1 = f.1
    · rw [List.find?_cons_of_pos (by simpa using hk), hpair]
      simp [hk, eq_comm]
    · have hne : f ≠ g := fun he => hk (he ▸ rfl)
      rw [List.find?_cons_of_neg (by simpa using hk), hpair]
      simp [hne, Ne.symm hk]

lemma mem_orderFields (h : (fields.map (·.1)).Nodup) {f : String × Json} :
    f ∈ orderFields fields ↔ f ∈ fields := by
  rw [mem_orderFields_iff]
  refine ⟨fun hf => List.mem_reverse.mp (List.mem_of_find?_eq_some hf), fun hf => ?_⟩
  cases hg : fields.reverse.find? (·.1 == f.1) with
  | none => exact absurd (List.find?_eq_none.mp hg f (List.mem_reverse.mpr hf)) (by simp)
  | some g =>
    have hk : g.1 = f.1 := by simpa using List.find?_some hg
    have hm := List.mem_reverse.mp (List.mem_of_find?_eq_some hg)
    rw [List.inj_on_of_nodup_map h hm hf hk]

lemma putField_of_above (h : ∀ f ∈ fields, f.1 < key) :
    putField key value fields = fields ++ [(key, value)] := by
  induction fields with
  | nil => rfl
  | cons g rest ih =>
    obtain ⟨k, v⟩ := g
    have hk : k < key := h (k, v) List.mem_cons_self
    have hlt : ¬ key < k := fun hlt => String.lt_irrefl k (String.lt_trans hk hlt)
    have hne : ¬ key = k := fun he => String.lt_irrefl k (he ▸ hk)
    rw [putField, if_neg hlt, if_neg hne, ih fun f hf => h f (List.mem_cons_of_mem _ hf)]
    rfl

lemma orderFields_of_increasing (h : Increasing fields) : orderFields fields = fields := by
  have hfold : ∀ (fields out : List (String × Json)), Increasing (out ++ fields) →
      fields.foldl (fun out f => putField f.1 f.2 out) out = out ++ fields := by
    intro fields
    induction fields with
    | nil => simp
    | cons f rest ih =>
      intro out h
      have habove : ∀ g ∈ out, g.1 < f.1 := by
        rw [Increasing, List.map_append, List.pairwise_append] at h
        exact fun g hg => h.2.2 g.1 (List.mem_map_of_mem hg) f.1 (by simp)
      rw [List.foldl_cons, putField_of_above habove, ih _ (by simpa using h)]
      simp
  exact hfold fields [] h

lemma numbersFields_iff {p : Number → Prop} :
    NumbersFields p fields ↔ ∀ f ∈ fields, f.2.Numbers p := by
  induction fields with
  | nil => simp [NumbersFields]
  | cons f fs ih =>
    obtain ⟨k, x⟩ := f
    simp [NumbersFields, ih]

lemma canonicalFields_iff :
    CanonicalFields fields ↔ ∀ f ∈ fields, f.2.Canonical := by
  induction fields with
  | nil => simp [CanonicalFields]
  | cons f fs ih =>
    obtain ⟨k, x⟩ := f
    simp [CanonicalFields, ih]

/-! What a value is read as is the value itself, but for numbers that are not read back. -/

mutual

def reread : Json → Json
  | .number n => .number n.reread
  | .array items => .array (rereadItems items)
  | .object fields => .object (rereadFields fields)
  | j => j

def rereadItems : List Json → List Json
  | [] => []
  | x :: xs => x.reread :: rereadItems xs

def rereadFields : List (String × Json) → List (String × Json)
  | [] => []
  | (k, x) :: xs => (k, x.reread) :: rereadFields xs

end

lemma rereadFields_eq (fields : List (String × Json)) :
    rereadFields fields = fields.map fun f => (f.1, f.2.reread) := by
  induction fields with
  | nil => rfl
  | cons f fields ih => rw [rereadFields, ih, List.map_cons]

mutual

lemma reread_of_readsBack {j : Json} (h : j.Numbers Number.ReadsBack) : j.reread = j := by
  cases j with
  | null | bool | string => rfl
  | number n => rw [reread, Number.ReadsBack.reread h]
  | array items => rw [reread, rereadItems_of_readsBack h]
  | object fields => rw [reread, rereadFields_of_readsBack h]

lemma rereadItems_of_readsBack {xs : List Json} (h : NumbersItems Number.ReadsBack xs) :
    rereadItems xs = xs := by
  cases xs with
  | nil => rfl
  | cons x xs => rw [rereadItems, reread_of_readsBack h.1, rereadItems_of_readsBack h.2]

lemma rereadFields_of_readsBack {xs : List (String × Json)}
    (h : NumbersFields Number.ReadsBack xs) : rereadFields xs = xs := by
  cases xs with
  | nil => rfl
  | cons x xs =>
    obtain ⟨k, x⟩ := x
    rw [rereadFields, reread_of_readsBack h.1, rereadFields_of_readsBack h.2]

end

mutual

lemma reread_of_value? {j j' : Json} {d : Document} (h : j.Reads d) (hc : j.Canonical)
    (hv : d.value? = some j') : j' = j.reread := by
  cases j with
  | null =>
    obtain rfl : d = .null := h
    simpa [Document.value?, reread] using hv.symm
  | bool b =>
    obtain rfl : d = .bool b := h
    simpa [Document.value?, reread] using hv.symm
  | number n =>
    rcases h with rfl | rfl
    · simp [Document.value?] at hv
    · simpa [Document.value?, reread] using hv.symm
  | string s =>
    obtain rfl : d = .text s := h
    simpa [Document.value?, reread] using hv.symm
  | array items =>
    rcases h with rfl | ⟨ds, rfl, h⟩
    · simp [Document.value?] at hv
    · simp only [Document.value?, Option.map_eq_some_iff] at hv
      obtain ⟨js, hjs, rfl⟩ := hv
      rw [reread, reread_of_itemValues? h hc hjs]
  | object fields =>
    rcases h with rfl | ⟨ds, rfl, h⟩
    · simp [Document.value?] at hv
    · simp only [Document.value?, Option.map_eq_some_iff] at hv
      obtain ⟨fs, hfs, rfl⟩ := hv
      have hincreasing : Increasing (rereadFields fields) := by
        rw [rereadFields_eq, Increasing, List.map_map]
        exact hc.1
      rw [reread, reread_of_fieldValues? h hc.2 hfs, orderFields_of_increasing hincreasing]

lemma reread_of_itemValues? {xs js : List Json} {ds : List Document} (h : ReadsItems xs ds)
    (hc : CanonicalItems xs) (hv : Document.itemValues? ds = some js) : js = rereadItems xs := by
  cases xs with
  | nil =>
    obtain rfl : ds = [] := h
    simpa [Document.itemValues?, rereadItems] using hv.symm
  | cons x xs =>
    obtain ⟨d, rest, rfl, hx, hxs⟩ := h
    rw [Document.itemValues?] at hv
    split at hv
    · rename_i j js' hj hjs
      obtain rfl := Option.some.inj hv
      rw [rereadItems, reread_of_value? hx hc.1 hj, reread_of_itemValues? hxs hc.2 hjs]
    · cases hv

lemma reread_of_fieldValues? {xs fs : List (String × Json)} {ds : List (String × Document)}
    (h : ReadsFields xs ds) (hc : CanonicalFields xs) (hv : Document.fieldValues? ds = some fs) :
    fs = rereadFields xs := by
  cases xs with
  | nil =>
    obtain rfl : ds = [] := h
    simpa [Document.fieldValues?, rereadFields] using hv.symm
  | cons x xs =>
    obtain ⟨k, x⟩ := x
    obtain ⟨d, rest, rfl, hx, hxs⟩ := h
    rw [Document.fieldValues?] at hv
    split at hv
    · rename_i j fs' hj hfs
      obtain rfl := Option.some.inj hv
      rw [rereadFields, reread_of_value? hx hc.1 hj, reread_of_fieldValues? hxs hc.2 hfs]
    · cases hv

end

end Json

/-! Fields of records. -/

namespace Json

lemma ReadsFields.lookup {fields : List (String × Json)} {ds : List (String × Document)}
    (h : ReadsFields fields ds) (name : String) :
    (fields.lookup name = none ∧ ds.lookup name = none) ∨
      ∃ j d, fields.lookup name = some j ∧ ds.lookup name = some d ∧ j.Reads d := by
  induction fields generalizing ds with
  | nil =>
    obtain rfl : ds = [] := h
    exact Or.inl ⟨rfl, rfl⟩
  | cons f fields ih =>
    obtain ⟨k, x⟩ := f
    obtain ⟨d, rest, rfl, hx, hrest⟩ := h
    by_cases hk : name = k
    · subst hk
      exact Or.inr ⟨x, d, by simp, by simp, hx⟩
    · have hb : (name == k) = false := beq_false_of_ne hk
      simpa only [List.lookup_cons, hb] using ih hrest

lemma lookup_cons (key name : String) (value : Json) (rest : List (String × Json)) :
    ((key, value) :: rest).lookup name = if name = key then some value else rest.lookup name := by
  by_cases h : name = key
  · simp [h]
  · have hb : (name == key) = false := beq_false_of_ne h
    simp only [List.lookup_cons, hb, if_neg h]

lemma lookup_field? {α : Type} (key name : String) (write : α → Json) (o : Option α) :
    (field? key write o).lookup name = if name = key then o.map write else none := by
  by_cases h : name = key
  · subst h
    cases o <;> simp [field?]
  · cases o <;> simp [field?, lookup_cons, h]

end Json

lemma Document.orNull?_of_reads {α β : Type} {write : α → Json} {read : Document → Option β} {a : α}
    {b : Option β} {d : Document} (h : (write a).Reads d) (hn : ¬ (write a).Reads .null)
    (hd : d.orNull? read = some b) : ∃ b', b = some b' ∧ read d = some b' := by
  unfold Document.orNull? at hd
  split at hd
  · exact absurd h hn
  · obtain ⟨b', hb, rfl⟩ := Option.map_eq_some_iff.mp hd
    exact ⟨b', rfl, hb⟩

namespace Record

variable {α β : Type} {fields : List (String × Json)} {r : Record} {name : String}
  {read : Document → Option α}

structure Of (fields : List (String × Json)) (r : Record) : Prop where
  named : r.positional = false
  given : Json.ReadsFields fields r.given

lemma Of.of_record? {names : List String} {d : Document} (h : (Json.object fields).Reads d)
    (hr : d.record? names = some r) : r.Of fields := by
  rcases h with rfl | ⟨ds, rfl, h⟩
  · simp [Document.record?] at hr
  · rw [Document.record?] at hr
    split at hr
    · obtain rfl := Option.some.inj hr
      exact ⟨rfl, h⟩
    · cases hr

lemma Of.required (h : r.Of fields) {j : Json} (hj : fields.lookup name = some j) {a : α}
    (ha : r.required name read = some a) : ∃ d, j.Reads d ∧ read d = some a := by
  rcases h.given.lookup name with ⟨hn, -⟩ | ⟨j', d, hj', hd, hread⟩
  · simp [hn] at hj
  · obtain rfl := Option.some.inj (hj'.symm.trans hj)
    exact ⟨d, hread, by simpa [Record.required, get?, hd] using ha⟩

lemma Of.withDefault (h : r.Of fields) {a default : α}
    (ha : r.withDefault name read default = some a) :
    fields.lookup name = none ∧ a = default ∨
      ∃ j d, fields.lookup name = some j ∧ j.Reads d ∧ read d = some a := by
  rcases h.given.lookup name with ⟨hn, hd⟩ | ⟨j, d, hj, hd, hread⟩
  · exact Or.inl ⟨hn, by simpa [Record.withDefault, get?, hd] using ha.symm⟩
  · exact Or.inr ⟨j, d, hj, hread, by simpa [Record.withDefault, get?, hd] using ha⟩

lemma Of.optional (h : r.Of fields) {write : β → Json} {o : Option β}
    (ho : fields.lookup name = o.map write) {a : Option α}
    (ha : r.optional name read = some a) :
    (o = none ∧ a = none) ∨ ∃ b d, o = some b ∧ (write b).Reads d ∧
      Document.orNull? read d = some a := by
  rcases h.withDefault ha with ⟨hn, rfl⟩ | ⟨j, d, hj, hread, ha⟩
  · rw [hn] at ho
    exact Or.inl ⟨by simpa using ho.symm, rfl⟩
  · rw [hj] at ho
    obtain ⟨b, hb, rfl⟩ := Option.map_eq_some_iff.mp ho.symm
    exact Or.inr ⟨b, d, hb, hread, ha⟩

/-! Where a value is read back as it was, the field that holds it is. -/

lemma Of.eq_of_required (h : r.Of fields) {j : Json} {a a' : α}
    (heq : ∀ {d}, j.Reads d → read d = some a' → a' = a) (hf : fields.lookup name = some j)
    (hr : r.required name read = some a') : a' = a := by
  obtain ⟨d, hd, hread⟩ := h.required hf hr
  exact heq hd hread

lemma Of.eq_of_withDefault (h : r.Of fields) {j : Json} {a a' default : α}
    (heq : ∀ {d}, j.Reads d → read d = some a' → a' = a) (hf : fields.lookup name = some j)
    (hr : r.withDefault name read default = some a') : a' = a := by
  rcases h.withDefault hr with ⟨hn, -⟩ | ⟨j', d, hj, hd, hread⟩
  · simp [hn] at hf
  · obtain rfl := Option.some.inj (hj.symm.trans hf)
    exact heq hd hread

lemma Of.eq_of_optional (h : r.Of fields) {write : α → Json} {o o' : Option α}
    (hn : ∀ a, ¬ (write a).Reads .null)
    (heq : ∀ a, o = some a → ∀ d a', (write a).Reads d → read d = some a' → a' = a)
    (hf : fields.lookup name = o.map write) (hr : r.optional name read = some o') : o' = o := by
  rcases h.optional hf hr with ⟨rfl, rfl⟩ | ⟨a, d, rfl, hd, hread⟩
  · rfl
  · obtain ⟨a', rfl, ha⟩ := Document.orNull?_of_reads hd (hn a) hread
    rw [heq a rfl d a' hd ha]

end Record

namespace Document

lemma text?_of_reads {s s' : String} {d : Document} (h : (Json.string s).Reads d)
    (hs : d.text? = some s') : s' = s := by
  obtain rfl : d = .text s := h
  exact (Option.some.inj hs).symm

lemma bool?_of_reads {b b' : Bool} {d : Document} (h : (Json.bool b).Reads d)
    (hb : d.bool? = some b') : b' = b := by
  obtain rfl : d = .bool b := h
  exact (Option.some.inj hb).symm

lemma list?_of_reads {α β : Type} {write : α → Json} {read : Document → Option β}
    {R : α → β → Prop} {xs : List α} {ys : List β} {d : Document}
    (hR : ∀ x ∈ xs, ∀ {y d}, (write x).Reads d → read d = some y → R x y)
    (h : (Json.array (xs.map write)).Reads d) (hy : d.list? read = some ys) :
    List.Forall₂ R xs ys := by
  rcases h with rfl | ⟨ds, rfl, h⟩
  · simp [list?] at hy
  · rw [list?] at hy
    induction xs generalizing ds ys with
    | nil =>
      obtain rfl : ds = [] := h
      obtain rfl := Option.some.inj hy
      exact .nil
    | cons x xs ih =>
      obtain ⟨d, rest, rfl, hx, hrest⟩ := h
      rw [allOf?] at hy
      split at hy
      · rename_i y ys' hd hds
        obtain rfl := Option.some.inj hy
        exact .cons (hR x List.mem_cons_self hx hd)
          (ih (fun x' hx' => hR x' (List.mem_cons_of_mem _ hx')) _ hrest hds)
      · cases hy

lemma map_of_reads {α β γ : Type} {write : α → Json} {read : Document → Option β} {f : α → γ}
    {g : β → γ} (hfg : ∀ {x y d}, (write x).Reads d → read d = some y → g y = f x) {xs : List α}
    {ys : List β} {d : Document} (h : (Json.array (xs.map write)).Reads d)
    (hy : d.list? read = some ys) : ys.map g = xs.map f := by
  have hall : List.Forall₂ (fun x y => g y = f x) xs ys := list?_of_reads (fun _ _ => hfg) h hy
  clear h hy
  induction hall with
  | nil => rfl
  | cons hxy _ ih => rw [List.map_cons, List.map_cons, hxy, ih]

end Document

end AccessControl
