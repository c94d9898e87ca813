import Mathlib.Tactic.Common

/-! Leaving elements out of a list and sorting it can change places. -/

namespace AccessControl.Sorting

lemma find?_filter_of_find? {α : Type} {p q : α → Bool} {l : List α} {a : α}
    (h : l.find? p = some a) (hq : q a = true) : (l.filter q).find? p = some a := by
  induction l with
  | nil => simp at h
  | cons b l ih =>
    rw [List.find?_cons] at h
    cases hp : p b with
    | true =>
      obtain rfl : b = a := by simpa [hp] using h
      rw [List.filter_cons, if_pos hq, List.find?_cons, hp]
    | false =>
      simp only [hp] at h
      rw [List.filter_cons]
      split
      · rw [List.find?_cons, hp]
        exact ih h
      · exact ih h

lemma append_unique {α : Type} {p : α → Bool} {xs ys us vs : List α}
    (h : xs ++ ys = us ++ vs) (hx : ∀ a ∈ xs, p a = false) (hy : ∀ a ∈ ys, p a = true)
    (hu : ∀ a ∈ us, p a = false) (hv : ∀ a ∈ vs, p a = true) : xs = us ∧ ys = vs := by
  induction xs generalizing us with
  | nil =>
    cases us with
    | nil => exact ⟨rfl, h⟩
    | cons u us =>
      obtain rfl : ys = u :: (us ++ vs) := h
      exact absurd (hy u List.mem_cons_self) (by simp [hu u List.mem_cons_self])
  | cons x xs ih =>
    cases us with
    | nil =>
      obtain rfl : x :: (xs ++ ys) = vs := h
      exact absurd (hv x List.mem_cons_self) (by simp [hx x List.mem_cons_self])
    | cons u us =>
      obtain ⟨rfl, hrest⟩ := List.cons.inj (show x :: (xs ++ ys) = u :: (us ++ vs) from h)
      obtain ⟨rfl, rfl⟩ := ih hrest (fun a ha => hx a (List.mem_cons_of_mem _ ha))
        (fun a ha => hu a (List.mem_cons_of_mem _ ha))
      exact ⟨rfl, rfl⟩

lemma filter_mergeSort {α : Type} {le : α → α → Bool} (q : α → Bool)
    (htrans : ∀ a b c, le a b = true → le b c = true → le a c = true)
    (htotal : ∀ a b, (le a b || le b a) = true) (l : List α) :
    (l.mergeSort le).filter q = (l.filter q).mergeSort le := by
  induction l with
  | nil => simp
  | cons a l ih =>
    obtain ⟨l₁, l₂, hs, hr, hlt⟩ := List.mergeSort_cons htrans htotal a l
    have hord := List.pairwise_mergeSort htrans htotal (a :: l)
    rw [hs] at hord
    have hle : ∀ b ∈ l₂, le a b = true :=
      (List.pairwise_cons.mp (List.pairwise_append.mp hord).2.1).1
    rw [hr] at ih
    rw [hs, List.filter_append, List.filter_cons, List.filter_cons]
    split
    · obtain ⟨m₁, m₂, hs', hr', hlt'⟩ := List.mergeSort_cons htrans htotal a (l.filter q)
      have hord' := List.pairwise_mergeSort htrans htotal (a :: l.filter q)
      rw [hs'] at hord'
      have hle' : ∀ b ∈ m₂, le a b = true :=
        (List.pairwise_cons.mp (List.pairwise_append.mp hord').2.1).1
      rw [hr', List.filter_append] at ih
      obtain ⟨h₁, h₂⟩ := append_unique ih
        (fun b hb => by simpa using hlt b (List.mem_filter.mp hb).1)
        (fun b hb => hle b (List.mem_filter.mp hb).1)
        (fun b hb => by simpa using hlt' b hb) hle'
      rw [hs', h₁, h₂]
    · rw [← ih, List.filter_append]

end AccessControl.Sorting
