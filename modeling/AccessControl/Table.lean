/-!
Tables keep one row per key, in key order. Putting a row replaces the row of its key.
-/

namespace AccessControl

class Keyed (α : Type) where
  key : α → String

namespace Table

variable {α : Type} [Keyed α]

def put (row : α) : List α → List α
  | [] => [row]
  | r :: rest =>
    if Keyed.key row < Keyed.key r then row :: r :: rest
    else if Keyed.key r < Keyed.key row then r :: put row rest
    else row :: rest

theorem mem_put {x row : α} {rows : List α} (h : x ∈ put row rows) : x = row ∨ x ∈ rows := by
  induction rows with
  | nil => simpa [put] using h
  | cons r rest ih =>
    unfold put at h
    split at h
    · simpa using h
    · split at h
      · rcases List.mem_cons.1 h with rfl | h
        · simp
        · rcases ih h with h | h <;> simp [h]
      · rcases List.mem_cons.1 h with rfl | h <;> simp [*]

theorem pairwise_put {row : α} {rows : List α}
    (h : rows.Pairwise fun a b => Keyed.key a < Keyed.key b) :
    (put row rows).Pairwise fun a b => Keyed.key a < Keyed.key b := by
  induction rows with
  | nil => simp [put]
  | cons r rest ih =>
    obtain ⟨hr, hrest⟩ := List.pairwise_cons.1 h
    unfold put
    split
    · rename_i hlt
      refine List.pairwise_cons.2 ⟨fun x hx => ?_, h⟩
      rcases List.mem_cons.1 hx with rfl | hx
      · exact hlt
      · exact String.lt_trans hlt (hr x hx)
    · split
      · rename_i hlt
        refine List.pairwise_cons.2 ⟨fun x hx => ?_, ih hrest⟩
        rcases mem_put hx with rfl | hx
        · exact hlt
        · exact hr x hx
      · rename_i h₁ h₂
        have he : Keyed.key row = Keyed.key r :=
          String.le_antisymm (String.not_lt.1 h₂) (String.not_lt.1 h₁)
        exact List.pairwise_cons.2 ⟨fun x hx => he ▸ hr x hx, hrest⟩

end Table

structure Table (α : Type) [Keyed α] where
  rows : List α
  increasing : rows.Pairwise fun a b => Keyed.key a < Keyed.key b

namespace Table

variable {α : Type} [Keyed α]

def empty : Table α := ⟨[], List.Pairwise.nil⟩

instance : Inhabited (Table α) := ⟨empty⟩

def get? (t : Table α) (key : String) : Option α :=
  t.rows.find? fun r => Keyed.key r == key

def contains (t : Table α) (key : String) : Bool :=
  (t.get? key).isSome

def insert (t : Table α) (row : α) : Table α :=
  ⟨put row t.rows, pairwise_put t.increasing⟩

def ofList (rows : List α) : Table α :=
  rows.foldl insert empty

def size (t : Table α) : Nat := t.rows.length

end Table

end AccessControl
