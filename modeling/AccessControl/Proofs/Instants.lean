import AccessControl.Instant.Relaxed
import AccessControl.Instant.Written
import Mathlib.Algebra.Group.Nat.Defs
import Mathlib.Data.List.TakeWhile
import Mathlib.Tactic.Common

/-! An instant that is read from its written text is the instant that was written. -/

namespace AccessControl

namespace Calendar

lemma dayOfYear_bounds {d y c e f g h : Int} (h₀ : 0 ≤ d) (h₁ : d < 146097)
    (hc : c = d / 1460) (he : e = d / 36524) (hf : f = d / 146096)
    (hy : y = (d - c + e - f) / 365) (hg : g = y / 4) (hh : h = y / 100) :
    0 ≤ d - (365 * y + g - h) ∧ d - (365 * y + g - h) ≤ 365 := by
  have he' : e = 0 ∨ e = 1 ∨ e = 2 ∨ e = 3 ∨ e = 4 := by omega
  have hcg : g = c ∨ g = c - 1 := by
    rcases he' with rfl | rfl | rfl | rfl | rfl <;> omega
  rcases he' with rfl | rfl | rfl | rfl | rfl <;> rcases hcg with hcg | hcg <;> omega

lemma daysOf_dateOf (n : Int) : daysOf (dateOf n) = n := by
  have hcycle : 0 ≤ n + 719468 - (n + 719468) / 146097 * 146097 ∧
    n + 719468 - (n + 719468) / 146097 * 146097 < 146097 := by omega
  simp only [dateOf]
  generalize hd : n + 719468 - (n + 719468) / 146097 * 146097 = d at hcycle ⊢
  generalize hy : (d - d / 1460 + d / 36524 - d / 146096) / 365 = y
  have hyear : 0 ≤ y ∧ y ≤ 399 := by omega
  have hday := dayOfYear_bounds hcycle.1 hcycle.2 rfl rfl rfl hy.symm rfl rfl
  generalize hdoy : d - (365 * y + y / 4 - y / 100) = doy at hday ⊢
  generalize hm : (5 * doy + 2) / 153 = m
  have hmonth : 0 ≤ m ∧ m ≤ 11 := by omega
  generalize hcyc : (n + 719468) / 146097 = cycle at hd ⊢
  have hyc : (y + cycle * 400) / 400 = cycle := by omega
  have hy' : y + cycle * 400 - cycle * 400 = y := by omega
  have hdays : ((doy - (153 * m + 2) / 5 + 1).toNat : Int) = doy - (153 * m + 2) / 5 + 1 :=
    Int.toNat_of_nonneg (by omega)
  simp only [daysOf, hdays]
  by_cases h10 : m < 10
  · have hlate : ¬ m + 3 ≤ 2 := by omega
    have hlate' : ¬ (m + 3).toNat ≤ 2 := by omega
    have hmonth' : ((m + 3).toNat : Int) - 3 = m := by omega
    simp only [if_pos h10, if_neg hlate, if_neg hlate', Int.add_zero, hyc, hy', hmonth']
    omega
  · have hearly : m - 9 ≤ 2 := by omega
    have hearly' : (m - 9).toNat ≤ 2 := by omega
    have hyear' : y + cycle * 400 + 1 - 1 = y + cycle * 400 := by omega
    have hmonth' : ((m - 9).toNat : Int) + 9 = m := by omega
    simp only [if_neg h10, if_pos hearly, if_pos hearly', hyear', hyc, hy', hmonth']
    omega

lemma leap_of_last_day {d y : Int} (h₀ : 0 ≤ d) (h₁ : d < 146097)
    (hy : y = (d - d / 1460 + d / 36524 - d / 146096) / 365)
    (hlast : d - (365 * y + y / 4 - y / 100) = 365) :
    (y + 1) % 4 = 0 ∧ ((y + 1) % 100 ≠ 0 ∨ (y + 1) % 400 = 0) := by
  generalize hc : d / 1460 = c at hy
  generalize he : d / 36524 = e at hy
  by_cases hend : d = 146096
  · subst hend
    obtain rfl : c = 100 := by omega
    obtain rfl : e = 4 := by omega
    obtain rfl : y = 399 := by omega
    omega
  · have hf : d / 146096 = 0 := by omega
    rw [hf] at hy
    have hcentury : 100 * e ≤ y ∧ y ≤ 100 * e + 99 := by
      have he' : e = 0 ∨ e = 1 ∨ e = 2 ∨ e = 3 := by omega
      rcases he' with rfl | rfl | rfl | rfl <;> omega
    have hh : y / 100 = e := by omega
    rw [hh] at hlast
    generalize hquad : y / 4 = g at hlast
    have hg : g = c - 1 := by omega
    have hbelow : 1460 * (g + 1) ≤ d := by omega
    have hlow : 0 ≤ e ∧ e ≤ 3 := by omega
    have hthird : y = 4 * g + 3 := by
      have hr : y = 4 * g ∨ y = 4 * g + 1 ∨ y = 4 * g + 2 ∨ y = 4 * g + 3 := by omega
      rcases hr with hr | hr | hr | hr <;> omega
    refine ⟨by omega, Or.inl fun hz => ?_⟩
    have hcent : y = 100 * e + 99 := by omega
    omega

lemma isLeapYear_iff {y : Int} :
    isLeapYear y = true ↔ y % 4 = 0 ∧ (y % 100 ≠ 0 ∨ y % 400 = 0) := by
  simp [isLeapYear]

lemma month_day_dateOf (n : Int) : 1 ≤ (dateOf n).month ∧ (dateOf n).month ≤ 12 ∧
    1 ≤ (dateOf n).day ∧ (dateOf n).day ≤ daysInMonth (dateOf n).year (dateOf n).month := by
  have hcycle : 0 ≤ n + 719468 - (n + 719468) / 146097 * 146097 ∧
    n + 719468 - (n + 719468) / 146097 * 146097 < 146097 := by omega
  simp only [dateOf]
  generalize n + 719468 - (n + 719468) / 146097 * 146097 = d at hcycle ⊢
  generalize hy : (d - d / 1460 + d / 36524 - d / 146096) / 365 = y
  have hday := dayOfYear_bounds hcycle.1 hcycle.2 rfl rfl rfl hy.symm rfl rfl
  have hleap := leap_of_last_day hcycle.1 hcycle.2 hy.symm
  generalize d - (365 * y + y / 4 - y / 100) = doy at hday hleap ⊢
  generalize (n + 719468) / 146097 = cycle
  generalize hm : (5 * doy + 2) / 153 = m
  have hmonth : m = 0 ∨ m = 1 ∨ m = 2 ∨ m = 3 ∨ m = 4 ∨ m = 5 ∨ m = 6 ∨ m = 7 ∨ m = 8 ∨
      m = 9 ∨ m = 10 ∨ m = 11 := by omega
  have hfebruary : m = 11 → (doy - (153 * m + 2) / 5 + 1).toNat ≤
      if isLeapYear (y + cycle * 400 + 1) then 29 else 28 := by
    intro h
    split
    · omega
    · rename_i hnot
      have hne : doy ≠ 365 := by
        intro he
        obtain ⟨h4, h100⟩ := hleap he
        exact hnot (isLeapYear_iff.mpr (by omega))
      omega
  rcases hmonth with h | h | h | h | h | h | h | h | h | h | h | h
  all_goals subst h
  all_goals simp [daysInMonth] at hfebruary ⊢
  all_goals omega

lemma daysInMonth_le (y : Int) (m : Nat) : daysInMonth y m ≤ 31 := by
  rw [daysInMonth]
  repeat' split
  all_goals omega

lemma dateOf_month_day (n : Int) : (dateOf n).month ≤ 12 ∧ (dateOf n).day ≤ 31 := by
  obtain ⟨-, hmonth, -, hday⟩ := month_day_dateOf n
  exact ⟨hmonth, Nat.le_trans hday (daysInMonth_le _ _)⟩

lemma leapDays_bounds {y cycle hundreds fours : Int} (hcycle : cycle = y / 400)
    (hh : hundreds = (y - cycle * 400) / 100) (hf : fours = (y - cycle * 400) / 4) :
    (y ≤ firstYear - 1 → cycle * 97 + fours - hundreds ≤ -63570) ∧
      (lastYear ≤ y → 63569 ≤ cycle * 97 + fours - hundreds) := by
  have hcentury : hundreds = 0 ∨ hundreds = 1 ∨ hundreds = 2 ∨ hundreds = 3 := by omega
  simp only [firstYear, lastYear]
  refine ⟨fun h => ?_, fun h => ?_⟩
  · rcases hcentury with rfl | rfl | rfl | rfl <;> omega
  · rcases hcentury with rfl | rfl | rfl | rfl <;> omega

lemma year_bounds {d : Date} (hm : 1 ≤ d.month ∧ d.month ≤ 12) (hd : 1 ≤ d.day ∧ d.day ≤ 31)
    (hfirst : firstDay ≤ daysOf d) (hlast : daysOf d ≤ lastDay) :
    firstYear ≤ d.year ∧ d.year ≤ lastYear := by
  have hf : firstDay = -96465292 := by decide
  have hl : lastDay = 95026236 := by decide
  rw [hf] at hfirst
  rw [hl] at hlast
  simp only [daysOf] at hfirst hlast
  have hleap := leapDays_bounds (y := if d.month ≤ 2 then d.year - 1 else d.year) rfl rfl rfl
  simp only [firstYear, lastYear] at hleap ⊢
  by_cases hearly : d.month ≤ 2
  · simp only [if_pos hearly] at hfirst hlast hleap
    omega
  · simp only [if_neg hearly] at hfirst hlast hleap
    omega

lemma valid_dateOf {n : Int} (hfirst : firstDay ≤ n) (hlast : n ≤ lastDay) : Valid (dateOf n) := by
  obtain ⟨hmonth, hmonth', hday, hday'⟩ := month_day_dateOf n
  have hyear := year_bounds ⟨hmonth, hmonth'⟩ ⟨hday, (dateOf_month_day n).2⟩
    (by rwa [daysOf_dateOf]) (by rwa [daysOf_dateOf])
  exact ⟨hyear.1, hyear.2, hmonth, hmonth', hday, hday'⟩

end Calendar

/-! Digits. -/

lemma toList_padded (w n : Nat) : (padded w n).toList =
    List.replicate (w - (Nat.toDigits 10 n).length) '0' ++ Nat.toDigits 10 n := by
  simp [padded, ← String.length_toList]

lemma isDigit_padded {w n : Nat} {c : Char} (h : c ∈ (padded w n).toList) : c.isDigit = true := by
  rw [toList_padded, List.mem_append] at h
  rcases h with h | h
  · rw [List.eq_of_mem_replicate h]
    rfl
  · exact Nat.isDigit_of_mem_toDigits (by omega) (by omega) h

lemma padded_ne_nil (w n : Nat) : (padded w n).toList ≠ [] := by
  simp [toList_padded]

lemma length_padded {w n : Nat} (hw : 0 < w) (h : n < 10 ^ w) : (padded w n).toList.length = w := by
  have := (Nat.length_toDigits_le_iff (by omega) hw).mpr h
  simp [toList_padded]
  omega

lemma padded_cons (w n : Nat) :
    ∃ c cs, (padded w n).toList = c :: cs ∧ c.isDigit = true := by
  obtain ⟨c, cs, h⟩ := List.exists_cons_of_ne_nil (padded_ne_nil w n)
  have hc : c ∈ (padded w n).toList := by rw [h]; exact List.mem_cons_self
  exact ⟨c, cs, h, isDigit_padded hc⟩

namespace Instant

lemma number_eq (cs : List Char) : number cs = Nat.ofDigitChars 10 cs 0 := by
  rw [number, Nat.ofDigitChars_eq_foldl]
  congr 1
  funext n c
  rw [digit, Nat.mul_comm]

@[simp]
lemma number_padded (w n : Nat) : number (padded w n).toList = n := by
  rw [number_eq, toList_padded, Nat.ofDigitChars_append, Nat.ofDigitChars_replicate_zero]
  simp

lemma takeWhile_padded (w n : Nat) {rest : List Char}
    (h : ∀ c, rest.head? = some c → c.isDigit = false) :
    ((padded w n).toList ++ rest).takeWhile Char.isDigit = (padded w n).toList ∧
      ((padded w n).toList ++ rest).dropWhile Char.isDigit = rest := by
  rw [List.takeWhile_append_of_pos fun c hc => isDigit_padded hc,
    List.dropWhile_append_of_pos fun c hc => isDigit_padded hc]
  cases rest with
  | nil => simp
  | cons c rest => simp [h c rfl]

lemma not_blank_of_isDigit {c : Char} (h : c.isDigit = true) : Text.isBlank c = false := by
  have hc : 48 ≤ c.toNat ∧ c.toNat ≤ 57 := by
    simpa [Char.isDigit, UInt32.le_iff_toNat_le] using h
  simp only [Text.isBlank, Bool.or_eq_false_iff, Bool.and_eq_false_imp, decide_eq_true_eq,
    decide_eq_false_iff_not, beq_eq_false_iff_ne]
  omega

lemma skipBlanks_padded (w n : Nat) (rest : List Char) :
    Text.skipBlanks ((padded w n).toList ++ rest) = (padded w n).toList ++ rest := by
  obtain ⟨c, cs, h, hc⟩ := padded_cons w n
  rw [h]
  exact Text.skipBlanks_cons_of_not_blank (not_blank_of_isDigit hc)

lemma relaxedNumber?_padded {w n : Nat} (hw : 0 < w) (h : n < 10 ^ w) (rest : List Char) :
    relaxedNumber? w ((padded w n).toList ++ rest) = some (n, rest) := by
  have hlen := length_padded hw h
  have htake : ((padded w n).toList ++ rest).take w = (padded w n).toList :=
    List.take_left' hlen
  have hdrop : ((padded w n).toList ++ rest).drop w = rest := List.drop_left' hlen
  have hall : (padded w n).toList.takeWhile Char.isDigit = (padded w n).toList :=
    List.takeWhile_eq_self_iff.mpr fun c hc => isDigit_padded hc
  rw [relaxedNumber?, skipBlanks_padded]
  simp only [htake, hall]
  split
  · rename_i he
    exact absurd he (padded_ne_nil w n)
  · rw [number_padded, hlen, hdrop]

/-- An instant that a clock can give: a leap second is told on the last second of a minute. -/
structure Regular (t : Instant) : Prop where
  nanos : t.nanos < 2 * Duration.perSecond
  leap : Duration.perSecond ≤ t.nanos → t.secondOfDay % 60 = 59

def EndsDigits (rest : List Char) : Prop :=
  ∀ c, rest.head? = some c → c.isDigit = false

lemma scanFraction_padded {w n : Nat} (hw : 0 < w) (hw' : w ≤ 9) (h : n < 10 ^ w)
    {rest : List Char} (hrest : EndsDigits rest) :
    scanFraction ((padded w n).toList ++ rest) = .ok (n * tenTo (9 - w), rest) := by
  obtain ⟨htake, hdrop⟩ := takeWhile_padded w n hrest
  have hlen := length_padded hw h
  have hkept : (padded w n).toList.take 9 = (padded w n).toList :=
    List.take_of_length_le (by omega)
  rw [scanFraction, htake, hdrop]
  split
  · rename_i he
    exact absurd he (padded_ne_nil w n)
  · simp only [hkept, hlen, number_padded]

lemma fractionText_cases {n : Nat} (h : n < Duration.perSecond) :
    (fractionText n).toList = [] ∧ n = 0 ∨
      ∃ w m, (fractionText n).toList = '.' :: (padded w m).toList ∧ 0 < w ∧ w ≤ 9 ∧ m < 10 ^ w ∧
        m * tenTo (9 - w) = n := by
  have hp : Duration.perSecond = 1000000000 := rfl
  rw [fractionText]
  split
  · exact Or.inl ⟨rfl, by assumption⟩
  · apply Or.inr
    split
    · exact ⟨3, n / 1000000, by simp, by omega, by omega, by omega,
        show n / 1000000 * 1000000 = n by omega⟩
    · split
      · exact ⟨6, n / 1000, by simp, by omega, by omega, by omega,
          show n / 1000 * 1000 = n by omega⟩
      · exact ⟨9, n, by simp, by omega, by omega, by omega, Nat.mul_one n⟩

def shownSecond (t : Instant) : Nat :=
  t.secondOfDay.toNat % 60 + if Duration.perSecond ≤ t.nanos then 1 else 0

def shownNanos (t : Instant) : Nat :=
  if Duration.perSecond ≤ t.nanos then t.nanos - Duration.perSecond else t.nanos

lemma Regular.shownNanos_lt {t : Instant} (h : t.Regular) : t.shownNanos < Duration.perSecond := by
  have := h.nanos
  rw [shownNanos]
  split <;> omega

lemma Regular.timeOfDay? {t : Instant} (h : t.Regular) :
    timeOfDay? (t.secondOfDay.toNat / 3600) (t.secondOfDay.toNat / 60 % 60) t.shownSecond
      t.shownNanos = some (t.secondOfDay.toNat, t.nanos) := by
  have hs : t.secondOfDay.toNat < 86400 := by
    rw [secondOfDay]
    omega
  have hleap : Duration.perSecond ≤ t.nanos → t.secondOfDay.toNat % 60 = 59 := by
    intro hl
    have := h.leap hl
    unfold secondOfDay at this ⊢
    omega
  unfold Instant.timeOfDay? shownSecond shownNanos
  generalize t.secondOfDay.toNat = s at hs hleap ⊢
  by_cases hl : Duration.perSecond ≤ t.nanos
  · have hlast := hleap hl
    simp only [if_pos hl, hlast]
    rw [if_pos (by omega)]
    simp only [if_true, Option.some.injEq, Prod.mk.injEq]
    omega
  · simp only [if_neg hl, Nat.add_zero]
    have hlast : s % 60 ≠ 60 := by omega
    rw [if_pos (by omega), if_neg hlast, if_neg hlast]
    simp only [Option.some.injEq, Prod.mk.injEq, and_true]
    omega

lemma toList_timeText (t : Instant) : t.timeText.toList =
    (padded 2 (t.secondOfDay.toNat / 3600)).toList ++ ':' ::
      ((padded 2 (t.secondOfDay.toNat / 60 % 60)).toList ++ ':' ::
        ((padded 2 t.shownSecond).toList ++ (fractionText t.shownNanos).toList)) := by
  simp [timeText, shownSecond, shownNanos]

lemma shownSecond_lt (t : Instant) : t.shownSecond < 10 ^ 2 := by
  rw [shownSecond]
  split <;> omega

/-! The relaxed reader. -/

lemma relaxedMark?_cons {mark : Char} (h : Text.isBlank mark = false) (rest : List Char) :
    relaxedMark? mark (mark :: rest) = some rest := by
  rw [relaxedMark?, Text.skipBlanks_cons_of_not_blank h]
  simp

lemma relaxedYear?_signed {w n : Nat} {sign : Char} (hs : sign = '-' ∨ sign = '+')
    {rest : List Char} (h : EndsDigits rest) :
    relaxedYear? (sign :: ((padded w n).toList ++ rest)) =
      some (if sign = '-' then -(n : Int) else n, rest) := by
  obtain ⟨htake, hdrop⟩ := takeWhile_padded w n h
  rcases hs with rfl | rfl
  · rw [relaxedYear?, Text.skipBlanks_cons_of_not_blank (by decide)]
    simp only [htake, hdrop, if_true]
    split
    · rename_i he
      exact absurd he (padded_ne_nil w n)
    · rw [number_padded]
  · rw [relaxedYear?, Text.skipBlanks_cons_of_not_blank (by decide)]
    simp only [htake, hdrop]
    split
    · rename_i he
      exact absurd he (padded_ne_nil w n)
    · rw [number_padded]
      rfl

lemma relaxedYear?_yearText (y : Int) {rest : List Char} (h : EndsDigits rest) :
    relaxedYear? ((yearText y).toList ++ rest) = some (y, rest) := by
  rw [yearText]
  split
  · rename_i hy
    obtain ⟨c, cs, hp, hc⟩ := padded_cons 4 y.toNat
    have hn : y.toNat < 10 ^ 4 := by omega
    have hread := relaxedNumber?_padded (by omega) hn rest
    rw [relaxedYear?, skipBlanks_padded]
    rw [hp] at hread ⊢
    split
    · rename_i he
      obtain rfl := (List.cons.inj he).1
      simp at hc
    · rename_i he
      obtain rfl := (List.cons.inj he).1
      simp at hc
    · rw [hread]
      simp only [Option.map_some, Option.some.injEq, Prod.mk.injEq, and_true]
      omega
  · rename_i hy
    by_cases hneg : y < 0
    · rw [if_pos hneg, String.toList_append]
      refine (relaxedYear?_signed (Or.inl rfl) h).trans ?_
      simp only [if_true, Option.some.injEq, Prod.mk.injEq, and_true]
      omega
    · rw [if_neg hneg, String.toList_append]
      refine (relaxedYear?_signed (Or.inr rfl) h).trans ?_
      rw [if_neg (by decide)]
      simp only [Option.some.injEq, Prod.mk.injEq, and_true]
      omega

lemma relaxedDate?_dateText (t : Instant) (rest : List Char) :
    relaxedDate? (t.dateText.toList ++ rest) =
      if Calendar.Valid (Calendar.dateOf t.day) then some (Calendar.dateOf t.day, rest)
      else none := by
  obtain ⟨hm, hd⟩ := Calendar.dateOf_month_day t.day
  have htext : t.dateText.toList ++ rest = (yearText (Calendar.dateOf t.day).year).toList ++
      '-' :: ((padded 2 (Calendar.dateOf t.day).month).toList ++
        '-' :: ((padded 2 (Calendar.dateOf t.day).day).toList ++ rest)) := by
    simp [dateText]
  rw [htext, relaxedDate?, relaxedYear?_yearText _ (by simp [EndsDigits])]
  simp only [Option.bind_eq_bind, Option.bind_some, relaxedMark?_cons (show Text.isBlank '-' = false
    from rfl), relaxedNumber?_padded (show 0 < 2 by omega) (show (Calendar.dateOf t.day).month < 10 ^ 2
      by omega), relaxedNumber?_padded (show 0 < 2 by omega) (show (Calendar.dateOf t.day).day < 10 ^ 2
      by omega)]

lemma relaxedTime?_timeText {t : Instant} (ht : t.Regular) {rest : List Char} (h : EndsDigits rest)
    (hdot : ∀ r, rest ≠ '.' :: r) :
    relaxedTime? (t.timeText.toList ++ rest) = some ((t.secondOfDay.toNat, t.nanos), rest) := by
  have hs : t.secondOfDay.toNat < 86400 := by
    rw [secondOfDay]
    omega
  have htime := ht.timeOfDay?
  have hhour := relaxedNumber?_padded (show 0 < 2 by omega)
    (show t.secondOfDay.toNat / 3600 < 10 ^ 2 by omega)
  have hminute := relaxedNumber?_padded (show 0 < 2 by omega)
    (show t.secondOfDay.toNat / 60 % 60 < 10 ^ 2 by omega)
  have hsecond := relaxedNumber?_padded (show 0 < 2 by omega) t.shownSecond_lt
  have hcolon : ∀ rest, relaxedMark? ':' (':' :: rest) = some rest := relaxedMark?_cons rfl
  rw [toList_timeText]
  simp only [List.append_assoc, List.cons_append, relaxedTime?, hhour, hcolon, hminute, hsecond,
    Option.bind_eq_bind, Option.bind_some]
  rcases fractionText_cases ht.shownNanos_lt with ⟨hf, hn⟩ | ⟨w, m, hf, hw, hw', hm, hn⟩
  · rw [hf, List.nil_append]
    rw [hn] at htime
    split
    · exact absurd rfl (hdot _)
    · simp [htime]
  · rw [hf]
    simp [scanFraction_padded hw hw' hm h, hn, htime, Except.toOption]

lemma eq_of_ofLocal? {t t' : Instant}
    (h : ofLocal? (Calendar.dateOf t.day) (t.secondOfDay.toNat, t.nanos) 0 = some t') : t' = t := by
  rw [ofLocal?, Calendar.daysOf_dateOf] at h
  have hs : t.day * 86400 + t.secondOfDay.toNat - 0 = t.seconds := by
    unfold day secondOfDay
    omega
  simp only [hs] at h
  split at h
  · split at h
    · exact (Option.some.inj h).symm
    · cases h
  · cases h

lemma ofRelaxedText?_written {t : Instant} (ht : t.Regular) :
    ofRelaxedText? t.written =
      if Calendar.Valid (Calendar.dateOf t.day) then
        ofLocal? (Calendar.dateOf t.day) (t.secondOfDay.toNat, t.nanos) 0
      else none := by
  have htext : t.written.toList = t.dateText.toList ++ 'T' :: (t.timeText.toList ++ ['Z']) := by
    simp [written]
  have htime : relaxedTime? (t.timeText.toList ++ ['Z']) = some (_, ['Z']) :=
    relaxedTime?_timeText ht (by simp [EndsDigits]) (by simp)
  have hz : relaxedOffset? (Text.skipBlanks ['Z']) = some (0, []) := rfl
  rw [ofRelaxedText?, htext, relaxedDate?_dateText]
  split
  · simp only [true_or, if_true, htime, Option.bind_eq_bind, Option.bind_some, hz]
    rfl
  · rfl

lemma eq_of_ofRelaxedText? {t t' : Instant} (ht : t.Regular)
    (h : ofRelaxedText? t.written = some t') : t' = t := by
  rw [ofRelaxedText?_written ht] at h
  split at h
  · exact eq_of_ofLocal? h
  · cases h

end Instant

end AccessControl
