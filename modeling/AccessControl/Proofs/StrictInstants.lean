import AccessControl.Instant.Strict
import AccessControl.Proofs.Instants

/-! The strict reader reads the written text of an instant back as the instant, if the year has four
digits and no sign, and not at all otherwise. -/

namespace AccessControl

lemma length_le_size_utf8Encode (cs : List Char) : cs.length ≤ cs.utf8Encode.size := by
  induction cs with
  | nil => exact Nat.zero_le _
  | cons c cs ih =>
    have hc := c.utf8Size_pos
    rw [List.utf8Encode_cons, List.utf8Encode_singleton, ByteArray.size_append,
      List.size_toByteArray, String.length_utf8EncodeChar, List.length_cons]
    omega

lemma length_toList_le (s : String) : s.toList.length ≤ s.utf8ByteSize := by
  rw [← String.size_toByteArray, ← String.utf8Encode_toList]
  exact length_le_size_utf8Encode _

namespace Instant

lemma foldl_digits_lt {cs : List Char} (h : ∀ c ∈ cs, c.isDigit = true) (n : Nat) :
    cs.foldl (fun n c => n * 10 + digit c) n < (n + 1) * 10 ^ cs.length := by
  induction cs generalizing n with
  | nil => simp
  | cons c cs ih =>
    have hc : c.toNat ≤ 57 := by
      have := h c List.mem_cons_self
      simp only [Char.isDigit, Bool.and_eq_true, decide_eq_true_eq, ge_iff_le,
        UInt32.le_iff_toNat_le] at this
      exact this.2
    have hdigit : digit c ≤ 9 := by
      have hzero : '0'.toNat = 48 := rfl
      rw [digit]
      omega
    have hstep := ih (fun x hx => h x (List.mem_cons_of_mem _ hx)) (n * 10 + digit c)
    rw [List.foldl_cons, List.length_cons, Nat.pow_succ]
    calc _ < (n * 10 + digit c + 1) * 10 ^ cs.length := hstep
      _ ≤ ((n + 1) * 10) * 10 ^ cs.length := Nat.mul_le_mul_right _ (by omega)
      _ = (n + 1) * (10 ^ cs.length * 10) := by rw [Nat.mul_assoc, Nat.mul_comm 10]

lemma number_lt {cs : List Char} (h : ∀ c ∈ cs, c.isDigit = true) :
    number cs < 10 ^ cs.length := by
  simpa [number] using foldl_digits_lt h 0

lemma scanFraction_lt {cs rest : List Char} {n : Nat} (h : scanFraction cs = .ok (n, rest)) :
    n < Duration.perSecond := by
  rw [scanFraction] at h
  split at h
  · cases h
  · obtain ⟨rfl, -⟩ := Prod.mk.inj (Except.ok.inj h)
    have hlen : ((cs.takeWhile Char.isDigit).take 9).length ≤ 9 := List.length_take_le _ _
    have hdigits : ∀ c ∈ (cs.takeWhile Char.isDigit).take 9, c.isDigit = true := fun c hc =>
      List.mem_takeWhile_imp (List.mem_of_mem_take hc)
    have hlt := number_lt hdigits
    have hpow : 10 ^ ((cs.takeWhile Char.isDigit).take 9).length *
        tenTo (9 - ((cs.takeWhile Char.isDigit).take 9).length) = Duration.perSecond := by
      rw [tenTo, show Nat.pow 10 _ = 10 ^ _ from rfl, ← Nat.pow_add, Nat.add_sub_cancel' hlen]
      rfl
    rw [← hpow]
    exact Nat.mul_lt_mul_of_pos_right hlt (Nat.pow_pos (by omega))

lemma timeOfDay?_spec {hour minute second nanos : Nat} {time : Nat × Nat}
    (h : timeOfDay? hour minute second nanos = some time) (hn : nanos < Duration.perSecond) :
    time.2 < 2 * Duration.perSecond ∧ (Duration.perSecond ≤ time.2 → time.1 % 60 = 59) := by
  rw [timeOfDay?] at h
  split at h
  · obtain rfl := Option.some.inj h
    simp only
    split <;> omega
  · cases h

lemma scanOffset_mod {separator : List Char → Except InstantFault (List Char)}
    {cs rest : List Char} {offset : Int} (h : scanOffset separator cs = .ok (offset, rest)) :
    offset % 60 = 0 := by
  rw [scanOffset.eq_def] at h
  split at h
  · cases h
  split at h
  · obtain ⟨rfl, -⟩ := Prod.mk.inj (Except.ok.inj h)
    rfl
  split at h
  · split at h
    · split at h
      · simp only [bind, Except.bind] at h
        split at h
        · cases h
        split at h
        · split at h
          · split at h
            · obtain ⟨rfl, -⟩ := Prod.mk.inj (Except.ok.inj h)
              split <;> omega
            · cases h
          · cases h
        · cases h
        · cases h
      · cases h
    · cases h
    · cases h
  · cases h

structure Proper (t : Instant) : Prop where
  regular : t.Regular
  inRange : t.InRange

lemma proper_of_ofLocal? {date : Date} {time : Nat × Nat} {offset : Int} {t : Instant}
    (h : ofLocal? date time offset = some t) (hnanos : time.2 < 2 * Duration.perSecond)
    (hleap : Duration.perSecond ≤ time.2 → time.1 % 60 = 59) (ho : offset % 60 = 0) :
    t.Proper := by
  rw [ofLocal?] at h
  split at h
  · simp only at h
    split at h
    · rename_i hr
      obtain rfl := Option.some.inj h
      refine ⟨⟨hnanos, fun hl => ?_⟩, hr⟩
      have hlast := hleap hl
      simp only [secondOfDay]
      omega
    · cases h
  · cases h

lemma proper_of_strictRest {date : Date} {hour minute second : Nat} {cs : List Char} {t : Instant}
    (h : strictRest date hour minute second cs = .ok t) : t.Proper := by
  rw [strictRest.eq_def] at h
  simp only [bind, Except.bind] at h
  split at h
  case' h_1 =>
    split at h
    · cases h
    rename_i v hfraction
    have hn := scanFraction_lt hfraction
  case' h_2 => have hn : 0 < Duration.perSecond := by decide
  all_goals
    split at h
    · cases h
    rename_i time htime
    obtain ⟨hnanos, hleap⟩ := timeOfDay?_spec htime hn
    split at h
    · cases h
    rename_i offset hoffset
    split at h
    · cases h
    split at h
    · split at h
      · rename_i t' ht
        obtain rfl := Except.ok.inj h
        exact proper_of_ofLocal? ht hnanos hleap (scanOffset_mod hoffset)
      · cases h
    · cases h

lemma proper_of_ofStrictText {s : String} {t : Instant} (h : ofStrictText s = .ok t) :
    t.Proper := by
  rw [ofStrictText] at h
  split at h
  · cases h
  split at h
  · simp only [bind, Except.bind] at h
    split at h
    · cases h
    split at h
    · split at h
      · cases h
      · exact proper_of_strictRest h
    · cases h
  · simp only [bind, Except.bind] at h
    split at h <;> cases h
  · cases h

lemma proper_of_ofSeconds? {n : Int} {t : Instant} (h : ofSeconds? n = some t) : t.Proper := by
  rw [ofSeconds?] at h
  split at h
  · rename_i hr
    obtain rfl := Option.some.inj h
    have hpos : 0 < Duration.perSecond := by decide
    exact ⟨⟨Nat.mul_pos (by omega) hpos, fun hl => absurd hl (Nat.not_le.mpr hpos)⟩, hr⟩
  · cases h

lemma ofStrictText_of_sign {s : String} {c : Char} {cs : List Char} (hs : s.toList = c :: cs)
    (hc : c.isDigit = false) (t : Instant) : ofStrictText s ≠ .ok t := by
  intro h
  have hpair : ∀ b, digitPair c b = .error .invalid := fun b => by simp [digitPair, hc]
  rw [ofStrictText, hs] at h
  split at h
  · cases h
  · split at h
    · rename_i he
      obtain rfl := (List.cons.inj he).1
      simp [strictDate, hpair, bind, Except.bind] at h
    · rename_i he
      obtain rfl := (List.cons.inj he).1
      simp [strictDate, hpair, bind, Except.bind] at h
    · cases h

lemma padded_pair {n : Nat} (h : n < 10 ^ 2) :
    ∃ a b, (padded 2 n).toList = [a, b] ∧ digitPair a b = .ok n := by
  have hlen := length_padded (by omega) h
  match hp : (padded 2 n).toList, hlen with
  | [a, b], _ =>
    have hd : ∀ x ∈ [a, b], x.isDigit = true := fun x hx => isDigit_padded (hp ▸ hx)
    have hn := number_padded 2 n
    rw [hp] at hn
    exact ⟨a, b, rfl, by simp [digitPair, hd, hn]⟩

lemma padded_four {n : Nat} (h : n < 10 ^ 4) :
    ∃ a b c d x y, (padded 4 n).toList = [a, b, c, d] ∧ digitPair a b = .ok x ∧
      digitPair c d = .ok y ∧ x * 100 + y = n := by
  have hlen := length_padded (by omega) h
  match hp : (padded 4 n).toList, hlen with
  | [a, b, c, d], _ =>
    have hd : ∀ x ∈ [a, b, c, d], x.isDigit = true := fun x hx => isDigit_padded (hp ▸ hx)
    refine ⟨a, b, c, d, number [a, b], number [c, d], rfl, ?_, ?_, ?_⟩
    · simp [digitPair, hd]
    · simp [digitPair, hd]
    · have hn := number_padded 4 n
      rw [hp] at hn
      simp only [number, List.foldl_cons, List.foldl_nil] at hn ⊢
      omega

lemma ofLocal?_written {t : Instant} (h : t.InRange) :
    ofLocal? (Calendar.dateOf t.day) (t.secondOfDay.toNat, t.nanos) 0 = some t := by
  have hs : t.day * 86400 + t.secondOfDay.toNat - 0 = t.seconds := by
    unfold day secondOfDay
    omega
  rw [ofLocal?, Calendar.daysOf_dateOf, if_pos (by decide)]
  simp only [hs]
  exact if_pos h

def FourDigitYear (t : Instant) : Prop :=
  0 ≤ (Calendar.dateOf t.day).year ∧ (Calendar.dateOf t.day).year ≤ 9999

instance (t : Instant) : Decidable t.FourDigitYear :=
  inferInstanceAs (Decidable (_ ∧ _))

lemma strictRest_written {t : Instant} (ht : t.Regular) :
    strictRest (Calendar.dateOf t.day) (t.secondOfDay.toNat / 3600)
      (t.secondOfDay.toNat / 60 % 60) t.shownSecond
      ((fractionText t.shownNanos).toList ++ ['+', '0', '0', ':', '0', '0']) =
        match ofLocal? (Calendar.dateOf t.day) (t.secondOfDay.toNat, t.nanos) 0 with
        | some t => .ok t
        | none => .error .outOfRange := by
  have hoffset : scanOffset colon ['+', '0', '0', ':', '0', '0'] = .ok (0, []) := rfl
  have hlargest : ¬ (largestOffset < (0 : Int) ∨ (0 : Int) < -largestOffset) := by decide
  have htime := ht.timeOfDay?
  rcases fractionText_cases ht.shownNanos_lt with ⟨hf, hn⟩ | ⟨w, m, hf, hw, hw', hm, hn⟩
  · rw [hn] at htime
    rw [hf]
    simp only [strictRest, List.nil_append, bind, Except.bind, htime]
    rfl
  · have hends : EndsDigits ['+', '0', '0', ':', '0', '0'] := by simp [EndsDigits]
    have hscan := scanFraction_padded hw hw' hm hends
    rw [← hn] at htime
    simp only [strictRest, hf, List.cons_append, hscan, bind, Except.bind, htime, hoffset,
      if_neg hlargest]
    rfl

lemma ofStrictText_written {t : Instant} (ht : t.Regular) (hy : t.FourDigitYear) :
    ofStrictText t.writtenWithOffset =
      match ofLocal? (Calendar.dateOf t.day) (t.secondOfDay.toNat, t.nanos) 0 with
      | some t => .ok t
      | none => .error .outOfRange := by
  obtain ⟨hmonth, hmonth', hday, hday'⟩ := Calendar.month_day_dateOf t.day
  have hs : t.secondOfDay.toNat < 86400 := by
    rw [secondOfDay]
    omega
  have hday'' := (Calendar.dateOf_month_day t.day).2
  obtain ⟨y₁, y₂, y₃, y₄, x, y, hyear, hx, hy', hxy⟩ :=
    padded_four (show (Calendar.dateOf t.day).year.toNat < 10 ^ 4 by have := hy.2; omega)
  obtain ⟨m₁, m₂, hm, hm'⟩ := padded_pair (show (Calendar.dateOf t.day).month < 10 ^ 2 by omega)
  obtain ⟨d₁, d₂, hd, hd'⟩ := padded_pair (show (Calendar.dateOf t.day).day < 10 ^ 2 by omega)
  obtain ⟨h₁, h₂, hh, hh'⟩ := padded_pair (show t.secondOfDay.toNat / 3600 < 10 ^ 2 by omega)
  obtain ⟨n₁, n₂, hn, hn'⟩ := padded_pair (show t.secondOfDay.toNat / 60 % 60 < 10 ^ 2 by omega)
  obtain ⟨s₁, s₂, hs, hs'⟩ := padded_pair t.shownSecond_lt
  have htext : t.writtenWithOffset.toList =
      y₁ :: y₂ :: y₃ :: y₄ :: '-' :: m₁ :: m₂ :: '-' :: d₁ :: d₂ :: 'T' :: h₁ :: h₂ :: ':' ::
        n₁ :: n₂ :: ':' :: s₁ :: s₂ ::
          ((fractionText t.shownNanos).toList ++ ['+', '0', '0', ':', '0', '0']) := by
    rw [FourDigitYear] at hy
    simp [writtenWithOffset, dateText, yearText, hy, toList_timeText, hyear, hm, hd, hh, hn, hs]
  have hlong : ¬ t.writtenWithOffset.utf8ByteSize < 19 := by
    have := length_toList_le t.writtenWithOffset
    simp only [htext, List.length_cons] at this
    omega
  have hdate : (⟨(x : Int) * 100 + y, (Calendar.dateOf t.day).month,
      (Calendar.dateOf t.day).day⟩ : Date) = Calendar.dateOf t.day := by
    have := hy.1
    rw [Date.mk.injEq]
    exact ⟨by omega, rfl, rfl⟩
  have hvalid : Calendar.Valid (Calendar.dateOf t.day) := by
    refine ⟨Int.le_trans (by decide) hy.1, Int.le_trans hy.2 (by decide), hmonth, hmonth', hday,
      hday'⟩
  rw [ofStrictText, if_neg hlong, htext]
  simp only [strictDate, hx, hy', hm', hd', expectChar, if_true, bind, Except.bind, hdate,
    if_pos hvalid, strictTime, hh', hn', hs', true_or]
  exact strictRest_written ht

lemma ofStrictText_of_year {t : Instant} (hy : ¬ t.FourDigitYear) (t' : Instant) :
    ofStrictText t.writtenWithOffset ≠ .ok t' := by
  rw [FourDigitYear] at hy
  have hsign : ∃ c cs, t.writtenWithOffset.toList = c :: cs ∧ c.isDigit = false := by
    by_cases hneg : (Calendar.dateOf t.day).year < 0
    · exact ⟨'-', _, by simp [writtenWithOffset, dateText, yearText, hy, hneg]; rfl, rfl⟩
    · exact ⟨'+', _, by simp [writtenWithOffset, dateText, yearText, hy, hneg]; rfl, rfl⟩
  obtain ⟨c, cs, htext, hc⟩ := hsign
  exact ofStrictText_of_sign htext hc t'

lemma eq_of_ofStrictText {t t' : Instant} (ht : t.Regular)
    (h : ofStrictText t.writtenWithOffset = .ok t') : t' = t := by
  by_cases hy : t.FourDigitYear
  · rw [ofStrictText_written ht hy] at h
    split at h
    · rename_i t'' hl
      rw [← Except.ok.inj h]
      exact eq_of_ofLocal? hl
    · cases h
  · exact absurd h (ofStrictText_of_year hy t')

lemma ofStrictText_written_iff {t t' : Instant} (ht : t.Proper) :
    ofStrictText t.writtenWithOffset = .ok t' ↔ t' = t ∧ t.FourDigitYear := by
  constructor
  · intro h
    refine ⟨eq_of_ofStrictText ht.regular h, ?_⟩
    by_contra hy
    exact ofStrictText_of_year hy t' h
  · rintro ⟨rfl, hy⟩
    rw [ofStrictText_written ht.regular hy, ofLocal?_written ht.inRange]

end Instant

end AccessControl
