/-! Sets of texts as lists without repetition, in the order of their code points. -/

namespace AccessControl.Text

def insertSorted (s : String) : List String → List String
  | [] => [s]
  | t :: rest =>
    if s < t then s :: t :: rest
    else if t < s then t :: insertSorted s rest
    else t :: rest

def sortedDistinct (texts : List String) : List String :=
  texts.foldl (fun out s => insertSorted s out) []

theorem mem_insertSorted {x s : String} {texts : List String} :
    x ∈ insertSorted s texts ↔ x = s ∨ x ∈ texts := by
  induction texts with
  | nil => simp [insertSorted]
  | cons t rest ih =>
    unfold insertSorted
    split
    · simp
    · split
      · simp only [List.mem_cons, ih]
        constructor <;> rintro (h | h | h) <;> simp [h]
      · rename_i h₁ h₂
        have he : s = t := String.le_antisymm (String.not_lt.1 h₂) (String.not_lt.1 h₁)
        simp [he]

theorem mem_sortedDistinct {x : String} {texts : List String} :
    x ∈ sortedDistinct texts ↔ x ∈ texts := by
  have h : ∀ (texts out : List String),
      x ∈ texts.foldl (fun out s => insertSorted s out) out ↔ x ∈ texts ∨ x ∈ out := by
    intro texts
    induction texts with
    | nil => simp
    | cons t rest ih =>
      intro out
      simp only [List.foldl_cons, ih, mem_insertSorted, List.mem_cons]
      constructor
      · rintro (h | h | h) <;> simp [h]
      · rintro ((h | h) | h) <;> simp [h]
  simpa [sortedDistinct] using h texts []

end AccessControl.Text
