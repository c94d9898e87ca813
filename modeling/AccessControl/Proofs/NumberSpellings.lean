import AccessControl.Proofs.NumberTexts

/-! The text of a number is spelled like a number to its end. It is filled up with zeros only when
it does not begin with one. -/

namespace AccessControl

namespace NumberText

variable {cs ws fs es rest : List Char}

structure Digits (cs : List Char) : Prop where
  ne_nil : cs ≠ []
  digits : ∀ c ∈ cs, c.isDigit = true

structure Whole (cs : List Char) : Prop extends Digits cs where
  leading : ∀ c ds, cs ≠ '0' :: c :: ds

def Fraction (cs : List Char) : Prop :=
  cs = [] ∨ ∃ ds, cs = '.' :: ds ∧ Digits ds

def Exponent (cs : List Char) : Prop :=
  cs = [] ∨ ∃ s ds, cs = 'e' :: s :: ds ∧ (s = '+' ∨ s = '-') ∧ Digits ds

def Unsigned (cs : List Char) : Prop :=
  ∃ ws fs es, cs = ws ++ (fs ++ es) ∧ Whole ws ∧ Fraction fs ∧ Exponent es

lemma Digits.append (h : Digits cs) (hr : ∀ c ∈ rest, c.isDigit = true) : Digits (cs ++ rest) := by
  refine ⟨by simp [h.ne_nil], fun c hc => ?_⟩
  rcases List.mem_append.mp hc with hc | hc
  · exact h.digits c hc
  · exact hr c hc

lemma digits_toDigits (n : Nat) : Digits (Nat.toDigits 10 n) :=
  ⟨Nat.toDigits_ne_nil, fun _ hc => Nat.isDigit_of_mem_toDigits (by omega) (by omega) hc⟩

lemma eq_zero_of_toDigits {k : Nat} (h : Nat.toDigits 10 k = '0' :: cs) : k = 0 := by
  induction k using Nat.strongRecOn generalizing cs with
  | _ k ih =>
    rw [Nat.toDigits_eq_if (by omega)] at h
    split at h
    · rename_i hk
      have hzero : ∀ d < 10, Nat.digitChar d = '0' → d = 0 := by decide
      exact hzero k hk (List.cons.inj h).1
    · rename_i hk
      obtain ⟨c, ds, hds⟩ := List.exists_cons_of_ne_nil (Nat.toDigits_ne_nil (b := 10) (n := k / 10))
      rw [hds, List.cons_append] at h
      rw [(List.cons.inj h).1] at hds
      have := ih (k / 10) (by omega) hds
      omega

lemma whole_toDigits (n : Nat) : Whole (Nat.toDigits 10 n) := by
  refine ⟨digits_toDigits n, fun c ds h => ?_⟩
  rw [eq_zero_of_toDigits h] at h
  simp at h

lemma whole_append {n : Nat} (hn : n ≠ 0) (hr : ∀ c ∈ rest, c.isDigit = true) :
    Whole (Nat.toDigits 10 n ++ rest) := by
  refine ⟨(digits_toDigits n).append hr, fun c ds h => ?_⟩
  obtain ⟨d, ds', hd⟩ := List.exists_cons_of_ne_nil (digits_toDigits n).ne_nil
  rw [hd, List.cons_append] at h
  rw [(List.cons.inj h).1] at hd
  exact hn (eq_zero_of_toDigits hd)

lemma Digits.drop {n : Nat} (h : Digits cs) (hn : n < cs.length) : Digits (cs.drop n) :=
  ⟨by simpa using hn, fun c hc => h.digits c (List.mem_of_mem_drop hc)⟩

lemma Whole.take {n : Nat} (h : Whole cs) (hn : 0 < n) : Whole (cs.take n) := by
  refine ⟨⟨by simp [h.ne_nil]; omega, fun c hc => h.digits c (List.mem_of_mem_take hc)⟩, ?_⟩
  intro c ds htake
  apply h.leading c (ds ++ cs.drop n)
  rw [← List.cons_append, ← List.cons_append, ← htake, List.take_append_drop]

lemma whole_singleton {c : Char} (hc : c.isDigit = true) : Whole [c] :=
  ⟨⟨by simp, by simpa using hc⟩, by simp⟩

/-! What is spelled so is scanned to its end. -/

lemma spanDigits_of_digits (h : ∀ c ∈ cs, c.isDigit = true)
    (hr : ∀ c, rest.head? = some c → c.isDigit = false) : spanDigits (cs ++ rest) = (cs, rest) := by
  rw [spanDigits, (takeWhile_ends hr).1, (takeWhile_ends hr).2,
    List.takeWhile_eq_self_iff.mpr h, List.dropWhile_eq_nil_iff.mpr h, List.nil_append]

lemma spanDigits_digits (h : ∀ c ∈ cs, c.isDigit = true) : spanDigits cs = (cs, []) := by
  simpa using @spanDigits_of_digits cs [] h (by simp)

lemma Exponent.scan (h : Exponent es) : ∃ e, scanExponent es = some (e, []) := by
  rcases h with rfl | ⟨s, ds, rfl, hs, hds⟩
  · exact ⟨none, rfl⟩
  · have hdigits : ∀ negative, exponentDigits negative ds = some (some (negative, ds), []) := by
      intro negative
      rw [exponentDigits, spanDigits_digits hds.digits]
      split
      · rename_i heq
        exact absurd (Prod.mk.inj heq).1 hds.ne_nil
      · rename_i heq
        obtain ⟨rfl, rfl⟩ := Prod.mk.inj heq
        rfl
    rw [scanExponent_mark (Or.inl rfl)]
    rcases hs with rfl | rfl
    · exact ⟨_, hdigits false⟩
    · exact ⟨_, hdigits true⟩

lemma Exponent.ends (h : Exponent es) :
    ∀ c, es.head? = some c → c.isDigit = false ∧ c ≠ '.' := by
  rcases h with rfl | ⟨s, ds, rfl, -, -⟩
  · simp
  · rintro c hc
    obtain rfl : 'e' = c := by simpa using hc
    decide

lemma Fraction.scan (hf : Fraction fs) (he : Exponent es) :
    ∃ f, scanFraction (fs ++ es) = some (f, es) := by
  rcases hf with rfl | ⟨ds, rfl, hds⟩
  · refine ⟨none, ?_⟩
    rw [List.nil_append]
    cases es with
    | nil => rfl
    | cons c es => simp [scanFraction, (he.ends c rfl).2]
  · refine ⟨some ds, ?_⟩
    rw [List.cons_append, scanFraction,
      spanDigits_of_digits hds.digits fun c hc => (he.ends c hc).1]
    obtain ⟨d, ds, rfl⟩ := List.exists_cons_of_ne_nil hds.ne_nil
    rfl

lemma Fraction.ends (hf : Fraction fs) (he : Exponent es) :
    ∀ c, (fs ++ es).head? = some c → c.isDigit = false := by
  rcases hf with rfl | ⟨ds, rfl, -⟩
  · exact fun c hc => (he.ends c hc).1
  · rintro c hc
    obtain rfl : '.' = c := by simpa using hc
    decide

lemma Unsigned.scanUnsigned (h : Unsigned cs) (negative : Bool) :
    ∃ t, scanUnsigned negative cs = some (t, []) := by
  obtain ⟨ws, fs, es, rfl, hw, hf, he⟩ := h
  obtain ⟨f, hf'⟩ := hf.scan he
  obtain ⟨e, he'⟩ := he.scan
  rw [NumberText.scanUnsigned, spanDigits_of_digits hw.digits (hf.ends he)]
  split
  · rename_i heq
    exact absurd (Prod.mk.inj heq).1 hw.ne_nil
  · rename_i heq
    exact absurd (Prod.mk.inj heq).1 (hw.leading _ _)
  · rename_i heq
    obtain ⟨rfl, rfl⟩ := Prod.mk.inj heq
    simp only [hf', he', Option.bind_eq_bind, Option.bind_some]
    exact ⟨_, rfl⟩

lemma Unsigned.scan (h : Unsigned cs) : ∃ t, scan cs = some (t, []) := by
  obtain ⟨ws, fs, es, hcs, hw, -⟩ := id h
  obtain ⟨c, ds, rfl⟩ := List.exists_cons_of_ne_nil hw.ne_nil
  have hc : c ≠ '-' := by
    rintro rfl
    simpa using hw.digits '-' List.mem_cons_self
  rw [hcs, List.cons_append, scan_cons, if_neg hc, ← List.cons_append, ← hcs]
  exact h.scanUnsigned false

lemma Unsigned.scan_negative (h : Unsigned cs) : ∃ t, NumberText.scan ('-' :: cs) = some (t, []) := by
  rw [scan_cons, if_pos rfl]
  exact h.scanUnsigned true

lemma unsigned_toDigits (n : Nat) : Unsigned (Nat.toDigits 10 n) :=
  ⟨_, [], [], by simp, whole_toDigits n, Or.inl rfl, Or.inl rfl⟩

end NumberText

/-! Shortest decimals. -/

namespace Decimal

variable {b : Binary}

lemma twoTo_pos (k : Nat) : 0 < twoTo k := Nat.two_pow_pos k

lemma tenTo_pos (k : Nat) : 0 < tenTo k := Nat.pow_pos (by omega)

lemma not_readsBack_zero (hb : b.mantissa ≠ 0) (place : Int) : readsBack b 0 place = false := by
  have hlower : 0 < b.lower.1 := by
    refine Nat.mul_pos ?_ (twoTo_pos _)
    split <;> omega
  have hr : 0 < b.lower.1 * tenTo (-place).toNat := Nat.mul_pos hlower (tenTo_pos _)
  have hleast : ∀ strict, atLeast 0 place b.lower strict = false := by
    intro strict
    cases strict <;> simp [atLeast, hr.ne']
  simp [readsBack, hleast]

lemma onGrid?_ne_zero (hb : b.mantissa ≠ 0) {place : Int} {c : Nat} (h : onGrid? b place = some c) :
    c ≠ 0 := by
  have hne : ∀ c, readsBack b c place = true → c ≠ 0 := by
    rintro c hc rfl
    simp [not_readsBack_zero hb] at hc
  simp only [onGrid?] at h
  split at h
  · rename_i hboth
    have hlow := hne _ (Bool.and_eq_true_iff.mp hboth).1
    obtain rfl := Option.some.inj h
    simp only [nearerNeighbour]
    split
    · exact hlow
    · split
      · omega
      · split <;> omega
  · split at h
    · rename_i hlow
      exact Option.some.inj h ▸ hne _ hlow
    · split at h
      · obtain rfl := Option.some.inj h
        exact Nat.succ_ne_zero _
      · cases h

lemma length_toDigits_le {n k : Nat} (hk : 0 < k) :
    (Nat.toDigits 10 n).length ≤ k ↔ n < tenTo k :=
  Nat.length_toDigits_le_iff (by omega) hk

lemma below_ne_zero {place : Int} (h : 0 < place) (hlead : place ≤ leadingPlace b) :
    below b place ≠ 0 := by
  have hdenominator : 0 < b.value.2 := twoTo_pos _
  have hwhole : tenTo place.toNat ≤ b.value.1 / b.value.2 := by
    simp only [leadingPlace] at hlead
    split at hlead
    · refine Nat.not_lt.mp fun hlt => ?_
      have := (length_toDigits_le (by omega)).mpr hlt
      omega
    · rename_i hlt
      have hfraction : b.value.1 * tenTo 400 / b.value.2 < tenTo 400 := by
        rw [Nat.div_lt_iff_lt_mul hdenominator, Nat.mul_comm (tenTo 400)]
        exact Nat.mul_lt_mul_of_pos_right (Nat.not_le.mp hlt) (tenTo_pos 400)
      have := (length_toDigits_le (by omega)).mpr hfraction
      omega
  have hzero : (-place).toNat = 0 := by omega
  have hle : b.value.2 * tenTo place.toNat ≤ b.value.1 * tenTo 0 := by
    rw [show tenTo 0 = 1 from rfl, Nat.mul_one, Nat.mul_comm]
    exact (Nat.le_div_iff_mul_le hdenominator).mp hwhole
  rw [below, hzero]
  exact (Nat.div_pos hle (Nat.mul_pos hdenominator (tenTo_pos _))).ne'

def Scientific.Proper (s : Scientific) : Prop :=
  s.significand = 0 → s.exponent ≤ 0

lemma searchGrids_proper (hb : b.mantissa ≠ 0) {place : Int} {fuel : Nat}
    (h : place ≤ leadingPlace b) : (searchGrids b place fuel).Proper := by
  induction fuel generalizing place with
  | zero =>
    intro hzero
    refine Int.not_lt.mp fun hpos => ?_
    exact below_ne_zero hpos h hzero
  | succ fuel ih =>
    rw [searchGrids]
    split
    · rename_i c hc
      exact fun hzero => absurd hzero (onGrid?_ne_zero hb hc)
    · exact ih (by omega)

lemma dropTrailingZeros_proper {s : Scientific} (h : s.Proper) (fuel : Nat) :
    (dropTrailingZeros fuel s).Proper := by
  induction fuel generalizing s with
  | zero => exact h
  | succ fuel ih =>
    rw [dropTrailingZeros]
    split
    · apply ih
      intro hzero
      have hzero : s.significand / 10 = 0 := hzero
      omega
    · exact h

lemma shortest_proper (hb : b.mantissa ≠ 0) : (shortest b).Proper :=
  dropTrailingZeros_proper (searchGrids_proper hb (Int.le_refl _)) 18

lemma mantissa_ne_zero {bits : UInt64} (h : bits ≠ 0) (hsign : bits.toNat < Word.signedBound) :
    (Binary.ofBits bits).mantissa ≠ 0 := by
  have hfraction : (bits &&& 0xFFFFFFFFFFFFF).toNat = bits.toNat % twoTo 52 := by
    rw [UInt64.toNat_and]
    exact Nat.and_two_pow_sub_one_eq_mod bits.toNat 52
  have hbiased : ((bits >>> 52) &&& 0x7FF).toNat = bits.toNat / twoTo 52 := by
    rw [UInt64.toNat_and, UInt64.toNat_shiftRight, Nat.shiftRight_eq_div_pow,
      show (52 : UInt64).toNat % 64 = 52 from rfl]
    refine (Nat.and_two_pow_sub_one_eq_mod _ 11).trans (Nat.mod_eq_of_lt ?_)
    rw [Nat.div_lt_iff_lt_mul (by omega)]
    exact hsign
  have hne : bits.toNat ≠ 0 := fun he => h (UInt64.toNat_inj.mp he)
  simp only [Binary.ofBits, hfraction, hbiased]
  split
  · rename_i hzero
    intro hmod
    have hsum := Nat.div_add_mod bits.toNat (twoTo 52)
    rw [hzero, show bits.toNat % twoTo 52 = 0 from hmod] at hsum
    exact hne hsum.symm
  · have := twoTo_pos 52
    simp only
    omega

/-! Written decimals. -/

open NumberText

variable {f : Layout}

lemma digits_zeros (n : Nat) : ∀ c ∈ (zeros n).toList, c.isDigit = true := by
  intro c hc
  rw [zeros, String.toList_ofList] at hc
  rw [List.eq_of_mem_replicate hc]
  rfl

lemma toList_toString (n : Nat) : (toString n).toList = Nat.toDigits 10 n :=
  Nat.toList_repr

lemma exponent_exponentText (e : Int) : Exponent (exponentText e).toList := by
  have hdigits := digits_toDigits e.natAbs
  have hpadded : Digits ((if (Nat.toDigits 10 e.natAbs).length < 2 then ['0'] else []) ++
      Nat.toDigits 10 e.natAbs) := by
    split
    · exact ⟨by simp, by simpa using hdigits.digits⟩
    · exact hdigits
  refine Or.inr ⟨if e < 0 then '-' else '+', _, ?_, ?_, hpadded⟩
  · rw [exponentText]
    split <;> split <;> simp_all [← String.length_toList]
  · split <;> simp

lemma Layout.magnitude_unsigned (hf : Fraction f.wholeMark.toList) {s : Scientific}
    (hs : s.Proper) : Unsigned (f.magnitude s).toList := by
  have hwhole := whole_toDigits s.significand
  simp only [magnitude, ← String.length_toList, toList_toString]
  split
  · split
    · refine ⟨Nat.toDigits 10 s.significand ++ (zeros s.exponent.toNat).toList, f.wholeMark.toList,
        [], by simp, ?_, hf, Or.inl rfl⟩
      by_cases hzero : s.significand = 0
      · have hexponent : s.exponent.toNat = 0 := by
          have := hs hzero
          omega
        simpa [hexponent, zeros] using hwhole
      · exact whole_append hzero (digits_zeros _)
    · split
      · generalize hpoint : ((Nat.toDigits 10 s.significand).length + s.exponent).toNat = point
        exact ⟨_, '.' :: (Nat.toDigits 10 s.significand).drop point, [], by simp,
          hwhole.take (n := point) (by omega), Or.inr ⟨_, rfl, hwhole.toDigits.drop (by omega)⟩,
          Or.inl rfl⟩
      · refine ⟨['0'], '.' :: ((zeros _).toList ++ Nat.toDigits 10 s.significand), [], by simp; rfl,
          whole_singleton rfl, Or.inr ⟨_, rfl, ?_⟩, Or.inl rfl⟩
        refine ⟨by simp, fun c hc => ?_⟩
        rcases List.mem_append.mp hc with hc | hc
        · exact digits_zeros _ c hc
        · exact hwhole.digits c hc
  · have hexponent := exponent_exponentText ((Nat.toDigits 10 s.significand).length + s.exponent - 1)
    revert hexponent
    generalize exponentText _ = es
    intro hexponent
    cases hd : Nat.toDigits 10 s.significand with
    | nil => exact absurd hd hwhole.ne_nil
    | cons d ds =>
      rw [hd] at hwhole
      have hfirst := whole_singleton (hwhole.digits d List.mem_cons_self)
      cases ds with
      | nil => exact ⟨[d], [], _, by simp, hfirst, Or.inl rfl, hexponent⟩
      | cons c ds =>
        refine ⟨[d], '.' :: c :: ds, _, by simp, hfirst, Or.inr ⟨_, rfl, by simp, ?_⟩, hexponent⟩
        exact fun x hx => hwhole.digits x (List.mem_cons_of_mem _ hx)

end Decimal

lemma Number.scan_written (n : Number) :
    ∃ t, NumberText.scan n.written.toList = some (t, []) := by
  cases n with
  | integer k =>
    cases k with
    | ofNat k =>
      have hlist : (Number.integer (Int.ofNat k)).written.toList = Nat.toDigits 10 k :=
        String.toList_ofList
      rw [hlist]
      exact (NumberText.unsigned_toDigits k).scan
    | negSucc k =>
      have hlist : (Number.integer (Int.negSucc k)).written.toList =
          '-' :: Nat.toDigits 10 (k + 1) := by
        have htext : (Number.integer (Int.negSucc k)).written = "-" ++ toString (k + 1) := rfl
        simp [htext]
      rw [hlist]
      exact (NumberText.unsigned_toDigits (k + 1)).scan_negative
  | double bits =>
    have hmark : NumberText.Fraction Decimal.attributeLayout.wholeMark.toList :=
      Or.inr ⟨['0'], rfl, by simp, by simp⟩
    have hsigned : ∀ text : String, NumberText.Unsigned text.toList →
        ∃ t, NumberText.scan ((if bits >>> 63 = 1 then "-" else "") ++ text).toList =
          some (t, []) := by
      intro text htext
      split
      · simpa using htext.scan_negative
      · simpa using htext.scan
    simp only [Number.written, Decimal.Layout.write]
    split
    · rw [String.append_assoc]
      apply hsigned
      refine ⟨['0'], _, [], by simp, NumberText.whole_singleton rfl, hmark, Or.inl rfl⟩
    · rename_i hmagnitude
      apply hsigned
      apply Decimal.Layout.magnitude_unsigned hmark
      apply Decimal.shortest_proper
      apply Decimal.mantissa_ne_zero hmagnitude
      rw [UInt64.toNat_and]
      exact Nat.lt_of_le_of_lt Nat.and_le_right (by decide)

end AccessControl
