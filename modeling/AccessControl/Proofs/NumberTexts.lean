import AccessControl.Json.NumberText
import AccessControl.Json.Written
import Mathlib.Data.List.TakeWhile

/-! A number is read up to where its spelling ends, whatever comes after it in an array or object. -/

namespace AccessControl

def EndsValue (rest : List Char) : Prop :=
  ∀ c, rest.head? = some c → c = ',' ∨ c = ']' ∨ c = '\x7d'

lemma endsValue_nil : EndsValue [] := by simp [EndsValue]

namespace NumberText

variable {cs rest r : List Char}

lemma takeWhile_ends {p : Char → Bool} (h : ∀ c, rest.head? = some c → p c = false) :
    (cs ++ rest).takeWhile p = cs.takeWhile p ∧
      (cs ++ rest).dropWhile p = cs.dropWhile p ++ rest := by
  induction cs with
  | nil =>
    cases rest with
    | nil => exact ⟨rfl, rfl⟩
    | cons c rest => simp [h c rfl]
  | cons c cs ih =>
    cases hc : p c with
    | true => simp [hc, ih]
    | false => simp [hc]

lemma spanDigits_append (h : EndsValue rest) :
    spanDigits (cs ++ rest) = ((spanDigits cs).1, (spanDigits cs).2 ++ rest) := by
  have hd : ∀ c, rest.head? = some c → c.isDigit = false := by
    intro c hc
    rcases h c hc with rfl | rfl | rfl <;> rfl
  rw [spanDigits, (takeWhile_ends hd).1, (takeWhile_ends hd).2, spanDigits]

lemma scanFraction_ends (h : EndsValue rest) : scanFraction rest = some (none, rest) := by
  cases rest with
  | nil => rfl
  | cons c rest => rcases h c rfl with rfl | rfl | rfl <;> rfl

lemma scanExponent_ends (h : EndsValue rest) : scanExponent rest = some (none, rest) := by
  cases rest with
  | nil => rfl
  | cons c rest => rcases h c rfl with rfl | rfl | rfl <;> rfl

lemma scanFraction_append {f : Option (List Char)} (h : EndsValue rest)
    (hs : scanFraction cs = some (f, r)) : scanFraction (cs ++ rest) = some (f, r ++ rest) := by
  cases cs with
  | nil =>
    obtain ⟨rfl, rfl⟩ : none = f ∧ [] = r := by simpa [scanFraction] using hs
    exact scanFraction_ends h
  | cons c cs =>
    by_cases hc : c = '.'
    · subst hc
      simp only [scanFraction, List.cons_append, spanDigits_append h] at hs ⊢
      cases hd : spanDigits cs with
      | mk digits after =>
        cases digits with
        | nil => simp [hd] at hs
        | cons d digits =>
          obtain ⟨rfl, rfl⟩ : some (d :: digits) = f ∧ after = r := by simpa [hd] using hs
          simp
    · obtain ⟨rfl, rfl⟩ : none = f ∧ c :: cs = r := by simpa [scanFraction, hc] using hs
      simp [scanFraction, hc]

def exponentDigits (negative : Bool) (cs : List Char) :
    Option (Option (Bool × List Char) × List Char) :=
  match spanDigits cs with
  | ([], _) => none
  | (digits, r) => some (some (negative, digits), r)

lemma exponentDigits_append {negative : Bool} {e : Option (Bool × List Char)} (h : EndsValue rest)
    (hs : exponentDigits negative cs = some (e, r)) :
    exponentDigits negative (cs ++ rest) = some (e, r ++ rest) := by
  rw [exponentDigits] at hs ⊢
  rw [spanDigits_append h]
  cases hd : spanDigits cs with
  | mk digits after =>
    cases digits with
    | nil => simp [hd] at hs
    | cons d digits =>
      obtain ⟨rfl, rfl⟩ : some (negative, d :: digits) = e ∧ after = r := by simpa [hd] using hs
      rfl

lemma scanExponent_mark {c s : Char} (hc : c = 'e' ∨ c = 'E') (cs : List Char) :
    scanExponent (c :: s :: cs) =
      if s = '+' then exponentDigits false cs
      else if s = '-' then exponentDigits true cs
      else exponentDigits false (s :: cs) := by
  by_cases hp : s = '+'
  · subst hp
    rw [scanExponent, if_pos hc, if_pos rfl]
    rfl
  · by_cases hm : s = '-'
    · subst hm
      rw [scanExponent, if_pos hc, if_neg hp, if_pos rfl]
      rfl
    · rw [scanExponent, if_pos hc, if_neg hp, if_neg hm]
      · rfl
      · simpa using hp
      · simpa using hm

lemma scanExponent_append {e : Option (Bool × List Char)} (h : EndsValue rest)
    (hs : scanExponent cs = some (e, r)) : scanExponent (cs ++ rest) = some (e, r ++ rest) := by
  cases cs with
  | nil =>
    obtain ⟨rfl, rfl⟩ : none = e ∧ [] = r := by simpa [scanExponent] using hs
    exact scanExponent_ends h
  | cons c cs =>
    by_cases hc : c = 'e' ∨ c = 'E'
    · cases cs with
      | nil => simp [scanExponent, hc, spanDigits] at hs
      | cons s cs =>
        rw [scanExponent_mark hc] at hs
        rw [List.cons_append, List.cons_append, scanExponent_mark hc]
        split
        · rename_i hp
          rw [if_pos hp] at hs
          exact exponentDigits_append h hs
        · rename_i hp
          rw [if_neg hp] at hs
          split
          · rename_i hm
            rw [if_pos hm] at hs
            exact exponentDigits_append h hs
          · rename_i hm
            rw [if_neg hm] at hs
            exact exponentDigits_append h hs
    · obtain ⟨rfl, rfl⟩ : none = e ∧ c :: cs = r := by simpa [scanExponent, hc] using hs
      simp [scanExponent, hc]

def scanUnsigned (negative : Bool) (cs : List Char) : Option (NumberText × List Char) :=
  match spanDigits cs with
  | ([], _) => none
  | ('0' :: _ :: _, _) => none
  | (whole, r) => do
    let (fraction, r) ← scanFraction r
    let (exponent, r) ← scanExponent r
    let (exponentNegative, digits) := exponent.getD (false, [])
    pure (⟨negative, whole, fraction.getD [], exponentNegative, digits,
      fraction.isNone && exponent.isNone⟩, r)

lemma scan_cons (c : Char) (cs : List Char) :
    scan (c :: cs) = if c = '-' then scanUnsigned true cs else scanUnsigned false (c :: cs) := by
  by_cases hc : c = '-'
  · subst hc
    rw [scan, if_pos rfl]
    rfl
  · rw [scan, if_neg hc]
    · rfl
    · simpa using hc

lemma scanUnsigned_append {negative : Bool} {t : NumberText} (h : EndsValue rest)
    (hs : scanUnsigned negative cs = some (t, r)) :
    scanUnsigned negative (cs ++ rest) = some (t, r ++ rest) := by
  rw [scanUnsigned] at hs ⊢
  rw [spanDigits_append h]
  cases hd : spanDigits cs with
  | mk whole after =>
    rw [hd] at hs
    simp only at hs ⊢
    split at hs
    · simp at hs
    · simp at hs
    · rename_i whole' after' hne hne' heq
      obtain ⟨rfl, rfl⟩ := Prod.mk.inj heq
      split
      · rename_i heq'
        obtain ⟨rfl, -⟩ := Prod.mk.inj heq'
        exact (hne rfl).elim
      · rename_i heq'
        obtain ⟨rfl, -⟩ := Prod.mk.inj heq'
        exact (hne' _ _ rfl).elim
      · rename_i heq'
        obtain ⟨rfl, rfl⟩ := Prod.mk.inj heq'
        simp only [Option.bind_eq_bind, Option.bind_eq_some_iff] at hs ⊢
        obtain ⟨⟨f, r₁⟩, hf, ⟨e, r₂⟩, he, hs⟩ := hs
        obtain ⟨rfl, rfl⟩ := Prod.mk.inj (Option.some.inj hs)
        exact ⟨_, scanFraction_append h hf, _, scanExponent_append h he, rfl⟩

lemma scan_append {t : NumberText} (h : EndsValue rest) (hs : scan cs = some (t, r)) :
    scan (cs ++ rest) = some (t, r ++ rest) := by
  cases cs with
  | nil => simp [scan, spanDigits] at hs
  | cons c cs =>
    rw [scan_cons] at hs
    rw [List.cons_append, scan_cons]
    split
    · rename_i hc
      rw [if_pos hc] at hs
      exact scanUnsigned_append h hs
    · rename_i hc
      rw [if_neg hc] at hs
      exact scanUnsigned_append h hs

end NumberText

end AccessControl
