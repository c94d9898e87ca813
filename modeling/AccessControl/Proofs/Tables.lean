import AccessControl.Table
import Mathlib.Data.List.Sort
import Mathlib.Tactic.Common

/-! A table has at most one row of a key; putting a row changes what is under its key and nothing
else. A table can be cut down to the keys that are kept. -/

namespace AccessControl.Table

variable {α : Type} [Keyed α] {t : Table α} {row : α} {key : String}

lemma key_of_get? (h : t.get? key = some row) : Keyed.key row = key := by
  simpa using List.find?_some h

lemma mem_of_get? (h : t.get? key = some row) : row ∈ t.rows :=
  List.mem_of_find?_eq_some h

lemma get?_of_mem (h : row ∈ t.rows) : t.get? (Keyed.key row) = some row := by
  obtain ⟨rows, hinc⟩ := t
  rw [get?]
  induction rows with
  | nil => simp at h
  | cons r rest ih =>
    obtain ⟨hr, hrest⟩ := List.pairwise_cons.mp hinc
    rcases List.mem_cons.mp h with rfl | hm
    · simp
    · have hne : ¬ Keyed.key r = Keyed.key row := fun he =>
        String.lt_irrefl _ (he ▸ hr row hm)
      simpa [hne] using ih hrest hm

lemma get?_eq_some : t.get? key = some row ↔ row ∈ t.rows ∧ Keyed.key row = key := by
  refine ⟨fun h => ⟨mem_of_get? h, key_of_get? h⟩, ?_⟩
  rintro ⟨hm, rfl⟩
  exact get?_of_mem hm

lemma find?_put (key : String) (row : α) (rows : List α) :
    (put row rows).find? (fun r => Keyed.key r == key) =
      if Keyed.key row = key then some row else rows.find? fun r => Keyed.key r == key := by
  induction rows with
  | nil => by_cases h : Keyed.key row = key <;> simp [put, h]
  | cons r rest ih =>
    rw [put]
    split
    · by_cases h : Keyed.key row = key <;> simp [List.find?_cons, h]
    · split
      · rename_i hlt
        rw [List.find?_cons, ih, List.find?_cons]
        cases hr : Keyed.key r == key with
        | true =>
          have hne : ¬ Keyed.key row = key := fun he =>
            String.lt_irrefl _ (he ▸ beq_iff_eq.mp hr ▸ hlt)
          simp only [if_neg hne]
        | false => rfl
      · rename_i h₁ h₂
        have he : Keyed.key row = Keyed.key r :=
          String.le_antisymm (String.not_lt.1 h₂) (String.not_lt.1 h₁)
        by_cases h : Keyed.key row = key
        · simp [h]
        · simp [h, ← he]

lemma get?_insert (t : Table α) (row : α) (key : String) :
    (t.insert row).get? key = if Keyed.key row = key then some row else t.get? key :=
  find?_put key row t.rows

lemma mem_insert {x : α} :
    x ∈ (t.insert row).rows ↔ x = row ∨ x ∈ t.rows ∧ Keyed.key x ≠ Keyed.key row := by
  have h := get?_insert t row (Keyed.key x)
  constructor
  · intro hx
    rw [get?_of_mem hx] at h
    split at h
    · exact Or.inl (Option.some.inj h)
    · rename_i hne
      exact Or.inr ⟨mem_of_get? h.symm, fun he => hne he.symm⟩
  · rintro (rfl | ⟨hx, hne⟩)
    · rw [if_pos rfl] at h
      exact mem_of_get? h
    · rw [if_neg (fun he => hne he.symm), get?_of_mem hx] at h
      exact mem_of_get? h

lemma put_of_forall_lt {rows : List α} (h : ∀ r ∈ rows, Keyed.key r < Keyed.key row) :
    put row rows = rows ++ [row] := by
  induction rows with
  | nil => rfl
  | cons r rest ih =>
    obtain ⟨hr, hrest⟩ := List.forall_mem_cons.mp h
    have hnot : ¬ Keyed.key row < Keyed.key r := fun hlt =>
      String.lt_irrefl _ (String.lt_trans hlt hr)
    rw [put, if_neg hnot, if_pos hr, ih hrest]
    rfl

lemma rows_foldl_insert {rows : List α}
    (h : (t.rows ++ rows).Pairwise fun a b => Keyed.key a < Keyed.key b) :
    (rows.foldl insert t).rows = t.rows ++ rows := by
  induction rows generalizing t with
  | nil => simp
  | cons r rest ih =>
    have hput : (t.insert r).rows = t.rows ++ [r] := put_of_forall_lt fun x hx =>
      (List.pairwise_append.mp h).2.2 x hx r List.mem_cons_self
    rw [List.foldl_cons, ih (by simpa [hput] using h), hput]
    simp

lemma rows_ofList {rows : List α} (h : rows.Pairwise fun a b => Keyed.key a < Keyed.key b) :
    (ofList rows).rows = rows :=
  rows_foldl_insert h

lemma mem_of_mem_ofList {rows : List α} (h : row ∈ (ofList rows).rows) : row ∈ rows := by
  have hfold : ∀ (rows : List α) (t : Table α), row ∈ (rows.foldl insert t).rows →
      row ∈ t.rows ∨ row ∈ rows := by
    intro rows
    induction rows with
    | nil => exact fun _ hm => Or.inl hm
    | cons r rows ih =>
      intro t hm
      rcases ih (t.insert r) hm with hm | hm
      · rcases mem_put hm with rfl | hm
        · exact Or.inr List.mem_cons_self
        · exact Or.inl hm
      · exact Or.inr (List.mem_cons_of_mem _ hm)
  exact (hfold rows empty h).resolve_left List.not_mem_nil

lemma get?_ofList (rows : List α) (key : String) :
    (ofList rows).get? key = rows.reverse.find? fun r => Keyed.key r == key := by
  have hfold : ∀ (rows : List α) (t : Table α), (rows.foldl insert t).get? key =
      (rows.reverse.find? fun r => Keyed.key r == key).or (t.get? key) := by
    intro rows
    induction rows with
    | nil => exact fun _ => rfl
    | cons r rows ih =>
      intro t
      rw [List.foldl_cons, ih, get?_insert, List.reverse_cons, List.find?_append, Option.or_assoc]
      by_cases hr : Keyed.key r = key <;> simp [hr]
  exact (hfold rows empty).trans Option.or_none

lemma mem_ofList {rows : List α} (h : (rows.map Keyed.key).Nodup) :
    row ∈ (ofList rows).rows ↔ row ∈ rows := by
  have hfold : ∀ (rows : List α) (t : Table α), (rows.map Keyed.key).Nodup →
      (row ∈ (rows.foldl insert t).rows ↔
        row ∈ rows ∨ row ∈ t.rows ∧ Keyed.key row ∉ rows.map Keyed.key) := by
    intro rows
    induction rows with
    | nil => simp
    | cons r rows ih =>
      intro t hkeys
      obtain ⟨hr, hrest⟩ := List.nodup_cons.mp hkeys
      rw [List.foldl_cons, ih (t.insert r) hrest, mem_insert, List.map_cons, List.mem_cons,
        List.mem_cons, not_or]
      constructor
      · rintro (hm | ⟨rfl | ⟨hm, hne⟩, hnot⟩)
        · exact Or.inl (Or.inr hm)
        · exact Or.inl (Or.inl rfl)
        · exact Or.inr ⟨hm, hne, hnot⟩
      · rintro ((rfl | hm) | ⟨hm, hne, hnot⟩)
        · exact Or.inr ⟨Or.inl rfl, hr⟩
        · exact Or.inl hm
        · exact Or.inr ⟨Or.inr ⟨hm, hne⟩, hnot⟩
  rw [ofList, hfold rows empty h]
  simp [empty]

lemma isSome_get? : (t.get? key).isSome = true ↔ key ∈ t.rows.map Keyed.key := by
  rw [Option.isSome_iff_exists, List.mem_map]
  exact exists_congr fun row => get?_eq_some

lemma nodup_keys (t : Table α) : (t.rows.map Keyed.key).Nodup := by
  rw [List.nodup_iff_pairwise_ne, List.pairwise_map]
  refine t.increasing.imp fun {a b} hlt he => ?_
  rw [he] at hlt
  exact String.lt_irrefl _ hlt

lemma eq_of_increasing {rows rows' : List α}
    (hinc : rows.Pairwise fun a b => Keyed.key a < Keyed.key b)
    (hinc' : rows'.Pairwise fun a b => Keyed.key a < Keyed.key b)
    (h : ∀ row, row ∈ rows ↔ row ∈ rows') : rows = rows' := by
  have : Std.Irrefl fun a b : α => Keyed.key a < Keyed.key b := ⟨fun a => String.lt_irrefl _⟩
  have : Std.Antisymm fun a b : α => Keyed.key a < Keyed.key b :=
    ⟨fun a b hab hba => absurd (String.lt_trans hab hba) (String.lt_irrefl _)⟩
  exact hinc.eq_of_mem_iff hinc' h

def only (t : Table α) (keep : String → Bool) : Table α :=
  ⟨t.rows.filter fun r => keep (Keyed.key r), t.increasing.filter _⟩

lemma get?_only (t : Table α) (keep : String → Bool) (key : String) :
    (t.only keep).get? key = if keep key then t.get? key else none := by
  rw [get?, only, List.find?_filter]
  split
  · rename_i hk
    rw [get?]
    congr 1
    funext r
    by_cases hr : Keyed.key r = key <;> simp [hr, hk]
  · rename_i hk
    rw [List.find?_eq_none]
    intro r _
    by_cases hr : Keyed.key r = key <;> simp [hr, hk]

lemma filter_put_of_not {p : α → Bool} {row : α} {rows : List α} (hp : p row = false)
    (hkey : ∀ r ∈ rows, Keyed.key r = Keyed.key row → p r = false) :
    (put row rows).filter p = rows.filter p := by
  induction rows with
  | nil => simp [put, hp]
  | cons r rest ih =>
    have hrest := ih fun r' hr' => hkey r' (List.mem_cons_of_mem _ hr')
    rw [put]
    split
    · simp [List.filter_cons, hp]
    · split
      · simp [List.filter_cons, hrest]
      · rename_i h₁ h₂
        have he : Keyed.key row = Keyed.key r :=
          String.le_antisymm (String.not_lt.1 h₂) (String.not_lt.1 h₁)
        simp [hp, hkey r List.mem_cons_self he.symm]

lemma only_insert_of_not (t : Table α) {row : α} {keep : String → Bool}
    (h : keep (Keyed.key row) = false) : (t.insert row).only keep = t.only keep := by
  simp only [only, mk.injEq]
  exact filter_put_of_not h fun r _ hr => by rw [hr, h]

end AccessControl.Table
