import AccessControl.Cache.Keys
import AccessControl.Glob
import Mathlib.Data.List.Induction
import Mathlib.Tactic.Common

/-! A pattern finds the keys it was made for and no others: the stars stand for parts without a line
feed. -/

namespace AccessControl

inductive Fits : List Char → List Char → Prop
  | nil : Fits [] []
  | char {p k} (c : Char) : Fits p k → Fits (c :: p) (c :: k)
  | star {p k} (part : List Char) : '\n' ∉ part → Fits p k → Fits ('*' :: p) (part ++ k)

namespace Fits

lemma append {p p' k k' : List Char} (h : Fits p k) (h' : Fits p' k') :
    Fits (p ++ p') (k ++ k') := by
  induction h with
  | nil => exact h'
  | char c _ ih => exact .char c ih
  | star part hp _ ih =>
    rw [List.append_assoc]
    exact .star part hp ih

lemma refl (p : List Char) : Fits p p := by
  induction p with
  | nil => exact .nil
  | cons c p ih => exact .char c ih

lemma any (part : List Char) (h : '\n' ∉ part) : Fits ['*'] part := by
  simpa using Fits.star part h .nil

lemma of_literal {p q k : List Char} (h : Fits (p ++ q) k) (hp : '*' ∉ p) :
    ∃ rest, k = p ++ rest ∧ Fits q rest := by
  induction p generalizing k with
  | nil => exact ⟨k, rfl, h⟩
  | cons c p ih =>
    obtain ⟨hc, hp⟩ := not_or.mp (List.mem_cons.not.mp hp)
    cases h with
    | char _ h =>
      obtain ⟨rest, rfl, hrest⟩ := ih h hp
      exact ⟨rest, rfl, hrest⟩
    | star => exact absurd rfl hc

lemma count_eq {p k : List Char} (h : Fits p k) : k.count '\n' = p.count '\n' := by
  induction h with
  | nil => rfl
  | char c _ ih => rw [List.count_cons, List.count_cons, ih]
  | star part hp _ ih =>
    rw [List.count_append, List.count_eq_zero.mpr hp, ih, List.count_cons_of_ne (by decide)]
    exact Nat.zero_add _

end Fits

namespace Reached

def place : Bool → List (Char × Bool) → Nat → Bool
  | before, _, 0 => before
  | _, [], _ + 1 => false
  | _, (_, here) :: rest, n + 1 => place here rest n

lemma place_literal {c : Char} {before : Bool} {rest : List (Char × Bool)} {n : Nat}
    (h : place before rest n = true) (hc : (rest.map (·.1))[n]? = some c) :
    place false (literal.go c before rest) (n + 1) = true := by
  induction rest generalizing before n with
  | nil => simp at hc
  | cons kh rest ih =>
    obtain ⟨k, here⟩ := kh
    cases n with
    | zero =>
      have hb : before = true := h
      have hk : k = c := by simpa using hc
      simp [literal.go, place, hb, hk]
    | succ n =>
      have h : place here rest n = true := h
      have := ih h (by simpa using hc)
      cases rest with
      | nil => simp at hc
      | cons kh' rest => exact this

lemma place_star {before before' : Bool} {rest : List (Char × Bool)} {n : Nat}
    (hb : before = true → before' = true) (h : place before rest n = true) :
    place before' (star.go before' rest) n = true := by
  induction rest generalizing before before' n with
  | nil =>
    cases n with
    | zero => exact hb h
    | succ n => cases h
  | cons kh rest ih =>
    obtain ⟨k, here⟩ := kh
    cases n with
    | zero => exact hb h
    | succ n => exact ih (fun hh => by simp [hh]) h

lemma place_star_succ {before : Bool} {rest : List (Char × Bool)} {n : Nat} {c : Char}
    (h : place before (star.go before rest) n = true) (hc : (rest.map (·.1))[n]? = some c)
    (hn : c ≠ '\n') : place before (star.go before rest) (n + 1) = true := by
  induction rest generalizing before n with
  | nil => simp at hc
  | cons kh rest ih =>
    obtain ⟨k, here⟩ := kh
    cases n with
    | zero =>
      have hb : before = true := h
      have hk : k = c := by simpa using hc
      simp [star.go, place, hb, hk, hn]
    | succ n => exact ih h (by simpa using hc)

lemma chars_literal (c : Char) (before : Bool) (rest : List (Char × Bool)) :
    (literal.go c before rest).map (·.1) = rest.map (·.1) := by
  induction rest generalizing before with
  | nil => rfl
  | cons kh rest ih =>
    obtain ⟨k, here⟩ := kh
    simp [literal.go, ih]

lemma chars_star (before : Bool) (rest : List (Char × Bool)) :
    (star.go before rest).map (·.1) = rest.map (·.1) := by
  induction rest generalizing before with
  | nil => rfl
  | cons kh rest ih =>
    obtain ⟨k, here⟩ := kh
    simp [star.go, ih]

def At (r : Reached) (after : List Char) : Prop :=
  ∃ before, r.rest.map (·.1) = before ++ after ∧ place r.start r.rest before.length = true

lemma At.literal {r : Reached} {c : Char} {after : List Char} (h : r.At (c :: after)) :
    (r.literal c).At after := by
  obtain ⟨before, hk, hp⟩ := h
  refine ⟨before ++ [c], ?_, ?_⟩
  · simpa [Reached.literal, chars_literal] using hk
  · rw [List.length_append]
    exact place_literal hp (by simp [hk])

lemma At.star {r : Reached} {after : List Char} (part : List Char) (h : r.At (part ++ after))
    (hpart : '\n' ∉ part) : r.star.At after := by
  obtain ⟨before, hk, hp⟩ := h
  have hstart : place r.start (star.go r.start r.rest) before.length = true :=
    place_star id hp
  clear hp
  induction part generalizing before with
  | nil => exact ⟨before, by simpa [Reached.star, chars_star] using hk, hstart⟩
  | cons c part ih =>
    have hc : c ≠ '\n' := fun he => hpart (he ▸ List.mem_cons_self)
    have hrest : '\n' ∉ part := fun hm => hpart (List.mem_cons_of_mem _ hm)
    apply ih hrest (before ++ [c]) (by simpa using hk)
    rw [List.length_append]
    exact place_star_succ hstart (by simp [hk]) hc

lemma At.step_char {r : Reached} {c : Char} {after : List Char} (h : r.At (c :: after)) :
    (r.step c).At after := by
  rw [step]
  split
  · rename_i hc
    subst hc
    exact h.star ['*'] (by decide)
  · exact h.literal

lemma At.foldl {p k : List Char} (h : Fits p k) {r : Reached} (hr : r.At k) :
    (p.foldl step r).At [] := by
  induction h generalizing r with
  | nil => exact hr
  | char c _ ih => exact ih hr.step_char
  | star part hpart _ ih => exact ih (by simpa [step] using hr.star part hpart)

lemma At.atEnd {r : Reached} (h : r.At []) : r.atEnd = true := by
  obtain ⟨before, hk, hp⟩ := h
  have hlen : before.length = r.rest.length := by
    have := congrArg List.length hk
    simpa using this.symm
  rw [hlen] at hp
  clear hk hlen
  rw [Reached.atEnd]
  obtain ⟨start, rest⟩ := r
  induction rest generalizing start with
  | nil => exact hp
  | cons kh rest ih =>
    obtain ⟨k, here⟩ := kh
    have := ih here hp
    cases rest with
    | nil => simpa using this
    | cons kh' rest => simpa [List.getLast?_cons_cons, List.getLast?_cons] using this

lemma place_zero (before : Bool) (rest : List (Char × Bool)) : place before rest 0 = before := by
  cases rest <;> rfl

lemma place_succ (before before' : Bool) (rest : List (Char × Bool)) (n : Nat) :
    place before rest (n + 1) = place before' rest (n + 1) := by
  cases rest <;> rfl

lemma place_of_literal {c : Char} {before : Bool} {rest : List (Char × Bool)} {n : Nat}
    (h : place false (literal.go c before rest) n = true) :
    ∃ m, n = m + 1 ∧ place before rest m = true ∧ (rest.map (·.1))[m]? = some c := by
  induction rest generalizing before n with
  | nil => cases n <;> cases h
  | cons kh rest ih =>
    obtain ⟨k, here⟩ := kh
    cases n with
    | zero => cases h
    | succ n =>
      have h : place (before && k == c) (literal.go c here rest) n = true := h
      cases n with
      | zero =>
        rw [place_zero, Bool.and_eq_true, beq_iff_eq] at h
        exact ⟨0, rfl, h.1, by simp [h.2]⟩
      | succ n =>
        rw [place_succ _ false] at h
        obtain ⟨m, hm, hp, hc⟩ := ih h
        exact ⟨m + 1, by omega, hp, by simpa using hc⟩

lemma place_of_star {before : Bool} {rest : List (Char × Bool)} {n : Nat}
    (h : place before (star.go before rest) (n + 1) = true) :
    place before rest (n + 1) = true ∨
      place before (star.go before rest) n = true ∧ (rest.map (·.1))[n]? ≠ some '\n' := by
  induction rest generalizing before n with
  | nil => cases h
  | cons kh rest ih =>
    obtain ⟨k, here⟩ := kh
    cases n with
    | zero =>
      simp only [star.go, place, place_zero, Bool.or_eq_true, Bool.and_eq_true, bne_iff_ne] at h ⊢
      rcases h with h | ⟨hb, hk⟩
      · exact Or.inl h
      · exact Or.inr ⟨hb, by simpa using hk⟩
    | succ n =>
      rcases ih (n := n) h with h | ⟨h, hc⟩
      · exact Or.inl (by simpa only [place, place_succ _ here] using h)
      · exact Or.inr ⟨h, by simpa using hc⟩

lemma At.of_literal {r : Reached} {c : Char} {after : List Char} (h : (r.literal c).At after) :
    r.At (c :: after) := by
  obtain ⟨before, hk, hp⟩ := h
  obtain ⟨m, hm, hplace, hc⟩ := place_of_literal hp
  induction before using List.reverseRecOn with
  | nil => cases hm
  | append_singleton start x _ =>
    rw [List.length_append, List.length_singleton, Nat.add_right_cancel_iff] at hm
    have hk : r.rest.map (·.1) = start ++ x :: after := by
      simpa [Reached.literal, chars_literal] using hk
    have hx : x = c := by simpa [hk, ← hm] using hc
    exact ⟨start, hx ▸ hk, hm ▸ hplace⟩

lemma At.of_star {r : Reached} {after : List Char} (h : r.star.At after) :
    ∃ part, '\n' ∉ part ∧ r.At (part ++ after) := by
  obtain ⟨before, hk, hp⟩ := h
  replace hk : r.rest.map (·.1) = before ++ after := by simpa [Reached.star, chars_star] using hk
  -- The star stands for what lies between the last place reached without it and this one.
  induction before using List.reverseRecOn generalizing after with
  | nil =>
    rw [List.length_nil, place_zero] at hp
    exact ⟨[], List.not_mem_nil, [], hk, (place_zero _ _).trans hp⟩
  | append_singleton before c ih =>
    rw [List.length_append] at hp
    rcases place_of_star hp with hp | ⟨hp, hc⟩
    · exact ⟨[], List.not_mem_nil, before ++ [c], hk, by rwa [List.length_append]⟩
    · have hk' : r.rest.map (·.1) = before ++ c :: after := by simpa using hk
      obtain ⟨part, hpart, hat⟩ := ih hp hk'
      have hc : '\n' ≠ c := by
        rintro rfl
        exact hc (by simp [hk])
      refine ⟨part ++ [c], ?_, by simpa using hat⟩
      rw [List.mem_append, List.mem_singleton]
      exact not_or.mpr ⟨hpart, hc⟩

lemma At.of_foldl {p after : List Char} {r : Reached} (h : (p.foldl step r).At after) :
    ∃ part, Fits p part ∧ r.At (part ++ after) := by
  induction p generalizing r with
  | nil => exact ⟨[], .nil, h⟩
  | cons c p ih =>
    obtain ⟨part, hp, hat⟩ := ih h
    rw [step] at hat
    split at hat
    · rename_i hc
      obtain ⟨starred, hs, hat⟩ := hat.of_star
      exact ⟨starred ++ part, hc ▸ .star starred hs hp, by simpa using hat⟩
    · exact ⟨c :: part, .char c hp, hat.of_literal⟩

lemma at_of_atEnd {r : Reached} (h : r.atEnd = true) : r.At [] := by
  refine ⟨r.rest.map (·.1), by simp, ?_⟩
  rw [List.length_map]
  obtain ⟨start, rest⟩ := r
  rw [atEnd] at h
  induction rest generalizing start with
  | nil => exact h
  | cons kh rest ih =>
    refine ih kh.2 ?_
    cases rest with
    | nil => simpa using h
    | cons kh' rest => simpa [List.getLast?_cons_cons, List.getLast?_cons] using h

end Reached

lemma globMatches_of_fits {pattern key : String} (h : Fits pattern.toList key.toList) :
    globMatches pattern key = true := by
  refine Reached.At.atEnd (Reached.At.foldl h ⟨[], ?_, ?_⟩)
  · simp [Function.comp_def]
  · simp [Reached.place]

lemma Reached.eq_of_at {key after : List Char}
    (h : Reached.At ⟨true, key.map fun k => (k, false)⟩ after) : after = key := by
  obtain ⟨before, hk, hp⟩ := h
  have hplace : ∀ (key : List Char) (n : Nat),
      place true (key.map fun k => (k, false)) (n + 1) = false := by
    intro key
    induction key with
    | nil => exact fun _ => rfl
    | cons k key ih =>
      intro n
      cases n with
      | zero => exact place_zero false _
      | succ n => exact (place_succ false true _ n).trans (ih n)
  cases before with
  | nil => simpa [Function.comp_def] using hk.symm
  | cons c before =>
    rw [List.length_cons, hplace] at hp
    cases hp

lemma fits_of_globMatches {pattern key : String} (h : globMatches pattern key = true) :
    Fits pattern.toList key.toList := by
  obtain ⟨part, hfits, hat⟩ := (Reached.at_of_atEnd h).of_foldl
  rw [List.append_nil] at hat
  exact Reached.eq_of_at hat ▸ hfits

end AccessControl
