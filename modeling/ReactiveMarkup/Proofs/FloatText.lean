-- SUMMARY: The text of a floating-point number determines the number.
import Mathlib.Algebra.Order.Field.Power
import Mathlib.Data.Rat.Lemmas
import Mathlib.Tactic.Linarith
import Mathlib.Tactic.NormNum
import Mathlib.Tactic.Positivity
import Mathlib.Tactic.Ring
import ReactiveMarkup.Number.Shortest

/-!
# The text of a floating-point number

The decimals that read back to a number are those between the midpoints to its neighbours, and a
midpoint belongs to the number with the even significand. So no decimal reads back to two absolute
values, and as the shortest decimal can be read off the text, the text determines the number
(`Binary64.text_injective`).
-/

namespace ReactiveMarkup

/-! ## Decimals as numbers -/

namespace Decimal

/-- The number that a decimal stands for. -/
def value (d : Decimal) : ℚ := d.digits * 10 ^ d.exponent

/-- A power with an integer exponent, times the power for its negative part, is the one for its
positive part. -/
theorem zpow_mul_pow_neg {b : ℚ} (hb : b ≠ 0) (e : ℤ) : b ^ e * b ^ (-e).toNat = b ^ e.toNat := by
  rw [← zpow_natCast, ← zpow_natCast, ← zpow_add₀ hb]
  congr 1
  omega

/-- The comparison is that of the numbers. -/
theorem compareBinary_eq (d : Decimal) (n : ℕ) (j : ℤ) :
    d.compareBinary n j = compare d.value (n * 2 ^ j) := by
  let c : ℚ := 2 ^ (-j).toNat * 10 ^ (-d.exponent).toNat
  have hc : 0 < c := by positivity
  have hleft : ((d.digits * Nat.pow 10 d.exponent.toNat * Nat.pow 2 (-j).toNat : ℕ) : ℚ) =
      d.value * c := by
    have hpow := zpow_mul_pow_neg (b := 10) (by norm_num) d.exponent
    simp only [value, c, Nat.pow_eq, Nat.cast_mul, Nat.cast_pow, Nat.cast_ofNat]
    rw [← hpow]
    ring
  have hright : ((n * Nat.pow 2 j.toNat * Nat.pow 10 (-d.exponent).toNat : ℕ) : ℚ) =
      n * 2 ^ j * c := by
    have hpow := zpow_mul_pow_neg (b := 2) (by norm_num) j
    simp only [c, Nat.pow_eq, Nat.cast_mul, Nat.cast_pow, Nat.cast_ofNat]
    rw [← hpow]
    ring
  unfold compareBinary
  rcases lt_trichotomy d.value (n * 2 ^ j) with h | h | h
  · rw [compare_lt_iff_lt.2 h, compare_lt_iff_lt, ← Nat.cast_lt (α := ℚ), hleft, hright]
    exact mul_lt_mul_of_pos_right h hc
  · rw [compare_eq_iff_eq.2 h, compare_eq_iff_eq, ← Nat.cast_inj (R := ℚ), hleft, hright, h]
  · rw [compare_gt_iff_gt.2 h, compare_gt_iff_gt, ← Nat.cast_lt (α := ℚ), hleft, hright]
    exact mul_lt_mul_of_pos_right h hc

/-- Zeros at the end of the digits make no difference. -/
private theorem value_stripZeros (fuel : ℕ) (d : Decimal) :
    (stripZeros fuel d).value = d.value := by
  induction fuel generalizing d with
  | zero => rfl
  | succ fuel ih =>
    rw [stripZeros]
    split
    · next h =>
      have hdigits : d.digits = d.digits / 10 * 10 :=
        (Nat.div_mul_cancel (Nat.dvd_of_mod_eq_zero h.2)).symm
      rw [ih, value, value, zpow_add_one₀ (by norm_num)]
      conv_rhs => rw [hdigits, Nat.cast_mul]
      push_cast
      ring
    · rfl

end Decimal

namespace Binary64

variable {x y : Binary64} {d : Decimal}

/-! ## The order of absolute values -/

/-- The place of the absolute value among those of all numbers, beginning with zero. -/
def rank (x : Binary64) : ℕ := x.exponentField * 2 ^ 52 + x.fractionField

theorem exponentField_eq (x : Binary64) : x.exponentField = x.bits.toNat / 2 ^ 52 % 2 ^ 11 := by
  rw [exponentField, UInt64.toNat_and, UInt64.toNat_shiftRight, Nat.shiftRight_eq_div_pow]
  exact Nat.and_two_pow_sub_one_eq_mod _ 11

theorem fractionField_eq (x : Binary64) : x.fractionField = x.bits.toNat % 2 ^ 52 := by
  rw [fractionField, UInt64.toNat_and]
  exact Nat.and_two_pow_sub_one_eq_mod _ 52

theorem isNegative_iff : x.isNegative = true ↔ x.bits.toNat / 2 ^ 63 = 1 := by
  rw [isNegative, beq_iff_eq, ← UInt64.toNat_inj, UInt64.toNat_shiftRight,
    Nat.shiftRight_eq_div_pow]
  rfl

/-- The rank is what stands in the bits behind the sign. -/
theorem rank_eq (x : Binary64) : x.rank = x.bits.toNat % 2 ^ 63 := by
  rw [rank, exponentField_eq, fractionField_eq]
  omega

/-- Numbers with the same sign and the same absolute value are the same. -/
theorem eq_of_rank (hsign : x.isNegative = y.isNegative) (hrank : x.rank = y.rank) : x = y := by
  have hx := x.bits.toNat_lt
  have hy := y.bits.toNat_lt
  have hbits : x.bits.toNat / 2 ^ 63 = 1 ↔ y.bits.toNat / 2 ^ 63 = 1 := by
    rw [← isNegative_iff, ← isNegative_iff, hsign]
  rw [rank_eq, rank_eq] at hrank
  have hnat : x.bits.toNat = y.bits.toNat := by omega
  obtain ⟨bits, finite⟩ := x
  obtain ⟨bits', finite'⟩ := y
  obtain rfl : bits = bits' := UInt64.toNat_inj.1 hnat
  rfl

/-- The significand of the number at a place. -/
def significandAt (n : ℕ) : ℕ := if n / 2 ^ 52 = 0 then n % 2 ^ 52 else 2 ^ 52 + n % 2 ^ 52

/-- The scale of the number at a place. -/
def scaleAt (n : ℕ) : ℤ := if n / 2 ^ 52 = 0 then -1074 else (n / 2 ^ 52 : ℕ) - 1075

theorem rank_fields (x : Binary64) : x.rank / 2 ^ 52 = x.exponentField ∧
    x.rank % 2 ^ 52 = x.fractionField := by
  rw [rank_eq, exponentField_eq, fractionField_eq]
  omega

theorem significand_eq (x : Binary64) : x.significand = significandAt x.rank := by
  obtain ⟨he, hf⟩ := rank_fields x
  rw [significand, significandAt, he, hf]
  rfl

theorem scale_eq (x : Binary64) : x.scale = scaleAt x.rank := by
  obtain ⟨he, -⟩ := rank_fields x
  rw [scale, scaleAt, he]

theorem isZero_iff : x.isZero = true ↔ x.rank = 0 := by
  rw [isZero, significand_eq, significandAt, beq_iff_eq]
  split <;> omega

/-- Significands are even at every other place. -/
private theorem significandAt_mod (n : ℕ) : significandAt n % 2 = n % 2 := by
  unfold significandAt
  split <;> omega

/-! ## Midpoints -/

/-- The midpoint between the absolute value at a place and the next one. -/
def midpoint (n : ℕ) : ℚ := (4 * significandAt n + 2 : ℕ) * 2 ^ (scaleAt n - 2)

/-- What the absolute values at a place are read from begins at the midpoint to the place before. -/
theorem midpoint_eq (n : ℕ) : midpoint n =
    (if (n + 1) % 2 ^ 52 = 0 ∧ 1 < (n + 1) / 2 ^ 52 then 4 * significandAt (n + 1) - 1
      else 4 * significandAt (n + 1) - 2 : ℕ) * 2 ^ (scaleAt (n + 1) - 2) := by
  by_cases hcarry : (n + 1) % 2 ^ 52 = 0 ∧ 1 < (n + 1) / 2 ^ 52
  · -- The place begins a binade, where the distances double.
    rw [if_pos hcarry]
    have hscale : scaleAt (n + 1) - 2 = scaleAt n - 2 + 1 := by
      unfold scaleAt
      rw [if_neg (by omega), if_neg (by omega)]
      omega
    have hsignificand : 2 * (4 * significandAt (n + 1) - 1) = 4 * significandAt n + 2 := by
      unfold significandAt
      rw [if_neg (by omega), if_neg (by omega)]
      omega
    rw [midpoint, hscale, zpow_add_one₀ two_ne_zero, ← hsignificand]
    push_cast
    ring
  · rw [if_neg hcarry]
    have hscale : scaleAt (n + 1) = scaleAt n := by
      unfold scaleAt
      split <;> split <;> omega
    have hsignificand : 4 * significandAt (n + 1) - 2 = 4 * significandAt n + 2 := by
      unfold significandAt
      split <;> split <;> omega
    rw [midpoint, hscale, hsignificand]

theorem midpoint_strictMono : StrictMono midpoint := by
  refine strictMono_nat_of_lt_succ fun n => ?_
  rw [midpoint_eq, midpoint]
  refine mul_lt_mul_of_pos_right (Nat.cast_lt.2 ?_) (by positivity)
  split <;> omega

private theorem midpoint_pos (n : ℕ) : 0 < midpoint n := by
  unfold midpoint
  positivity

/-- A decimal reads back as the absolute value of a number if it lies between the midpoints to its
neighbours, which count if the significand is even. -/
theorem readBy_iff {n : ℕ} (hn : x.rank = n + 1) : x.readBy d = true ↔
    (midpoint n < d.value ∨ (n + 1) % 2 = 0 ∧ d.value = midpoint n) ∧
      (d.value < midpoint (n + 1) ∨ (n + 1) % 2 = 0 ∧ d.value = midpoint (n + 1)) := by
  obtain ⟨he, hf⟩ := rank_fields x
  rw [hn] at he hf
  have hlow : midpoint n = ((if x.fractionField = 0 ∧ 1 < x.exponentField then 4 * x.significand - 1
      else 4 * x.significand - 2 : ℕ) : ℚ) * 2 ^ (x.scale - 2) := by
    rw [midpoint_eq, he, hf, significand_eq, scale_eq, hn]
  have hhigh : midpoint (n + 1) = ((4 * x.significand + 2 : ℕ) : ℚ) * 2 ^ (x.scale - 2) := by
    rw [midpoint, significand_eq, scale_eq, hn]
  have heven : (x.significand % 2 == 0) = decide ((n + 1) % 2 = 0) := by
    rw [significand_eq, significandAt_mod, hn, beq_eq_decide]
  simp only [readBy, Decimal.compareBinary_eq, ← hhigh, heven, Bool.and_eq_true,
    Bool.or_eq_true, beq_iff_eq,
    decide_eq_true_eq, compare_lt_iff_lt, compare_gt_iff_gt, compare_eq_iff_eq]
  rw [hlow]

theorem exists_rank (hx : x.isZero = false) : ∃ n, x.rank = n + 1 := by
  refine Nat.exists_eq_succ_of_ne_zero fun h => ?_
  rw [isZero_iff.2 h] at hx
  cases hx

theorem rank_le_of_readBy {d' : Decimal} (hx : x.isZero = false) (hy : y.isZero = false)
    (hreadx : x.readBy d = true) (hready : y.readBy d' = true) (hvalue : d.value = d'.value) :
    y.rank ≤ x.rank := by
  obtain ⟨n, hn⟩ := exists_rank hx
  obtain ⟨m, hm⟩ := exists_rank hy
  obtain ⟨-, habove⟩ := (readBy_iff hn).1 hreadx
  obtain ⟨hbelow, -⟩ := (readBy_iff hm).1 hready
  rw [hn, hm]
  by_contra hlt
  have hle : midpoint (n + 1) ≤ midpoint m := midpoint_strictMono.monotone (by omega)
  rcases habove with habove | ⟨heven, habove⟩
  · rcases hbelow with hbelow | ⟨-, hbelow⟩ <;> linarith
  · rcases hbelow with hbelow | ⟨heven', hbelow⟩
    · linarith
    · -- The midpoint between neighbours belongs to the one with the even significand.
      have hsame : n + 1 = m := midpoint_strictMono.injective (by linarith)
      omega

/-- No decimal reads back as two absolute values. -/
private theorem rank_eq_of_readBy {d' : Decimal} (hx : x.isZero = false) (hy : y.isZero = false)
    (hreadx : x.readBy d = true) (hready : y.readBy d' = true) (hvalue : d.value = d'.value) :
    x.rank = y.rank :=
  Nat.le_antisymm (rank_le_of_readBy hy hx hready hreadx hvalue.symm)
    (rank_le_of_readBy hx hy hreadx hready hvalue)

/-! ## The shortest decimal reads back -/

private theorem readBy_congr {d' : Decimal} (h : d.value = d'.value) :
    x.readBy d = x.readBy d' := by
  simp only [readBy, Decimal.compareBinary_eq, h]

private theorem readBy_of_nearestOnGrid? {e : ℤ} (h : x.nearestOnGrid? e = some d) :
    x.readBy d = true := by
  simp only [nearestOnGrid?] at h
  split at h
  · cases h
  · next hlow _ => exact Option.some.inj h ▸ hlow
  · next _ hhigh => exact Option.some.inj h ▸ hhigh
  · next hlow hhigh =>
    split at h
    · exact Option.some.inj h ▸ hlow
    · exact Option.some.inj h ▸ hhigh
    · split at h
      · exact Option.some.inj h ▸ hlow
      · exact Option.some.inj h ▸ hhigh

private theorem value_exact (x : Binary64) : x.exact.value = x.significand * 2 ^ x.scale := by
  have hten (e : ℤ) : (10 : ℚ) ^ e = 2 ^ e * 5 ^ e := by
    rw [← mul_zpow]
    norm_num
  have htwo : (2 : ℚ) ^ min x.scale 0 * 2 ^ x.scale.toNat = 2 ^ x.scale := by
    rw [← zpow_natCast, ← zpow_add₀ two_ne_zero]
    congr 1
    omega
  have hfive : (5 : ℚ) ^ min x.scale 0 * 5 ^ (-x.scale).toNat = 1 := by
    rw [← zpow_natCast, ← zpow_add₀ (by norm_num), ← zpow_zero 5]
    congr 1
    omega
  calc x.exact.value
      = x.significand * 2 ^ x.scale.toNat * 5 ^ (-x.scale).toNat * 10 ^ min x.scale 0 := by
        simp only [exact, Decimal.value, Nat.pow_eq, Nat.cast_mul, Nat.cast_pow, Nat.cast_ofNat]
    _ = x.significand * (2 ^ min x.scale 0 * 2 ^ x.scale.toNat) *
      (5 ^ min x.scale 0 * 5 ^ (-x.scale).toNat) := by
        rw [hten]
        ring
    _ = x.significand * 2 ^ x.scale := by rw [htwo, hfive, mul_one]

/-- The absolute value lies between the midpoints to its neighbours. -/
private theorem readBy_exact (hx : x.isZero = false) : x.readBy x.exact = true := by
  obtain ⟨n, hn⟩ := exists_rank hx
  have hvalue : x.exact.value = (4 * significandAt (n + 1) : ℕ) * 2 ^ (scaleAt (n + 1) - 2) := by
    rw [value_exact, significand_eq, scale_eq, hn, zpow_sub₀ two_ne_zero]
    push_cast
    ring
  have hpos : 0 < significandAt (n + 1) := by
    unfold significandAt
    split <;> omega
  refine (readBy_iff hn).2 ⟨.inl ?_, .inl ?_⟩
  · rw [hvalue, midpoint_eq]
    refine mul_lt_mul_of_pos_right (Nat.cast_lt.2 ?_) (by positivity)
    split <;> omega
  · rw [hvalue, midpoint]
    exact mul_lt_mul_of_pos_right (Nat.cast_lt.2 (by omega)) (by positivity)

theorem readBy_shortest (hx : x.isZero = false) : x.readBy x.shortest = true := by
  unfold shortest
  rw [readBy_congr (Decimal.value_stripZeros _ _)]
  cases hfound : (List.range 17).findSome? fun n => x.nearestOnGrid? (x.decade - (n + 1 : Nat)) with
  | none => exact readBy_exact hx
  | some d =>
    obtain ⟨n, -, hn⟩ := List.exists_of_findSome?_eq_some hfound
    exact readBy_of_nearestOnGrid? hn

end Binary64

/-! ## Reading a text -/

/-- The parts of a text before and behind the first mark in it. -/
def partsAt (mark : Char) (cs : List Char) : List Char × List Char :=
  (cs.takeWhile (· != mark), (cs.dropWhile (· != mark)).tail)

theorem partsAt_append {mark : Char} {cs : List Char} (h : mark ∉ cs) (rest : List Char) :
    partsAt mark (cs ++ mark :: rest) = (cs, rest) := by
  have hcs : ∀ c ∈ cs, (c != mark) = true := fun c hc => bne_iff_ne.2 fun he => h (he ▸ hc)
  rw [partsAt, List.takeWhile_append_of_pos hcs, List.dropWhile_append_of_pos hcs]
  simp

theorem partsAt_of_not_mem {mark : Char} {cs : List Char} (h : mark ∉ cs) :
    partsAt mark cs = (cs, []) := by
  induction cs with
  | nil => rfl
  | cons c cs ih =>
    have hc : c ≠ mark := (List.ne_of_not_mem_cons h).symm
    obtain ⟨htake, hdrop⟩ := Prod.mk.inj (ih (List.not_mem_of_not_mem_cons h))
    simp [partsAt, htake, hdrop, hc]

/-- The exponent that is written behind the mark of one. -/
def powerOf : List Char → ℤ
  | [] => 0
  | sign :: digits =>
    if sign = '-' then -Nat.ofDigitChars 10 digits 0 else Nat.ofDigitChars 10 digits 0

/-- The number that is written with a point, an exponent, or both. -/
def readDecimal (cs : List Char) : ℚ :=
  let (mantissa, power) := partsAt 'e' cs
  let (whole, fraction) := partsAt '.' mantissa
  Nat.ofDigitChars 10 (whole ++ fraction) 0 * 10 ^ (powerOf power - fraction.length)

/-- All the characters are decimal digits. -/
def AreDigits (cs : List Char) : Prop := ∀ c ∈ cs, c.isDigit = true

theorem AreDigits.append {cs ds : List Char} (hcs : AreDigits cs) (hds : AreDigits ds) :
    AreDigits (cs ++ ds) :=
  List.forall_mem_append.2 ⟨hcs, hds⟩

theorem AreDigits.take {cs : List Char} (h : AreDigits cs) (n : ℕ) : AreDigits (cs.take n) :=
  fun c hc => h c (List.mem_of_mem_take hc)

theorem AreDigits.drop {cs : List Char} (h : AreDigits cs) (n : ℕ) : AreDigits (cs.drop n) :=
  fun c hc => h c (List.mem_of_mem_drop hc)

private theorem areDigits_zeros (n : ℕ) : AreDigits (List.replicate n '0') := by
  intro c hc
  rw [List.eq_of_mem_replicate hc]
  rfl

private theorem areDigits_zero : AreDigits ['0'] := areDigits_zeros 1

theorem areDigits_toDigits (n : ℕ) : AreDigits (Nat.toDigits 10 n) :=
  fun _ hc => Nat.isDigit_of_mem_toDigits (by decide) (by decide) hc

/-- Neither a point nor the mark of an exponent stands among digits. -/
theorem AreDigits.not_mem {cs : List Char} (h : AreDigits cs) : '.' ∉ cs ∧ 'e' ∉ cs :=
  ⟨fun hc => absurd (h _ hc) (by decide), fun hc => absurd (h _ hc) (by decide)⟩

section Reading

variable {whole fraction : List Char}

theorem partsAt_point (hwhole : AreDigits whole) (hfraction : AreDigits fraction) :
    partsAt '.' (whole ++ '.' :: fraction) = (whole, fraction) ∧
    'e' ∉ whole ++ '.' :: fraction := by
  obtain ⟨hpoint, hmark⟩ := hwhole.not_mem
  refine ⟨partsAt_append hpoint fraction, fun h => ?_⟩
  rcases List.mem_append.1 h with h | h
  · exact hmark h
  · exact hfraction.not_mem.2 ((List.mem_cons.1 h).resolve_left (by decide))

theorem readDecimal_point (hwhole : AreDigits whole) (hfraction : AreDigits fraction) :
    readDecimal (whole ++ '.' :: fraction) =
      Nat.ofDigitChars 10 (whole ++ fraction) 0 * 10 ^ (-fraction.length : ℤ) := by
  obtain ⟨hparts, hmark⟩ := partsAt_point hwhole hfraction
  simp only [readDecimal, partsAt_of_not_mem hmark, hparts, powerOf, zero_sub]

private theorem readDecimal_power (hwhole : AreDigits whole) (power : List Char) :
    readDecimal (whole ++ 'e' :: power) = Nat.ofDigitChars 10 whole 0 * 10 ^ powerOf power := by
  obtain ⟨hpoint, hmark⟩ := hwhole.not_mem
  simp [readDecimal, partsAt_append hmark, partsAt_of_not_mem hpoint]

private theorem readDecimal_point_power (hwhole : AreDigits whole)
    (hfraction : AreDigits fraction) (power : List Char) :
    readDecimal (whole ++ '.' :: fraction ++ 'e' :: power) =
      Nat.ofDigitChars 10 (whole ++ fraction) 0 * 10 ^ (powerOf power - fraction.length) := by
  obtain ⟨hparts, hmark⟩ := partsAt_point hwhole hfraction
  simp only [readDecimal, partsAt_append hmark, hparts]

end Reading

private theorem ofDigitChars_zeros (n : ℕ) (cs : List Char) :
    Nat.ofDigitChars 10 (List.replicate n '0' ++ cs) 0 = Nat.ofDigitChars 10 cs 0 := by
  induction n with
  | zero => rfl
  | succ n ih => exact ih

private theorem ofDigitChars_append_zeros (n : ℕ) (cs : List Char) :
    Nat.ofDigitChars 10 (cs ++ List.replicate n '0') 0 = Nat.ofDigitChars 10 cs 0 * 10 ^ n := by
  induction n with
  | zero => simp
  | succ n ih =>
    rw [List.replicate_succ', ← List.append_assoc, Nat.ofDigitChars_append, ih, pow_succ]
    simp [Nat.ofDigitChars]
    ring

theorem powerOf_signed (lead : ℤ) :
    powerOf ((if lead < 0 then '-' else '+') :: Nat.toDigits 10 lead.natAbs) = lead := by
  have hdigits : Nat.ofDigitChars 10 (Nat.toDigits 10 lead.natAbs) 0 = lead.natAbs :=
    Nat.ofDigitChars_ten_toDigits
  by_cases hlead : lead < 0
  · rw [if_pos hlead, powerOf, if_pos rfl, hdigits]
    omega
  · rw [if_neg hlead, powerOf, if_neg (by decide), hdigits]
    omega

namespace Binary64

variable {x y : Binary64} {digits : List Char}

/-- Digits with a point behind the first ones, and with zeros where they do not reach the point. -/
private theorem readDecimal_layOut_whole (hdigits : AreDigits digits) (n : ℕ) :
    let whole := (digits ++ List.replicate (n + 1 - digits.length) '0').take (n + 1)
    let fraction := digits.drop (n + 1)
    readDecimal (whole ++ '.' :: (if fraction.isEmpty then ['0'] else fraction)) =
      Nat.ofDigitChars 10 digits 0 * 10 ^ ((n : ℤ) + 1 - digits.length) := by
  intro whole fraction
  rcases Nat.lt_or_ge (n + 1) digits.length with h | h
  · have hwhole : whole = digits.take (n + 1) := List.take_append_of_le_length h.le
    have hfraction : fraction.isEmpty = false := by
      simp [fraction, h]
    rw [hfraction, hwhole, if_neg (by decide), readDecimal_point (hdigits.take _) (hdigits.drop _),
      List.take_append_drop, List.length_drop]
    congr 2
    omega
  · obtain ⟨k, hk⟩ : ∃ k, n + 1 = digits.length + k := Nat.exists_eq_add_of_le h
    have hwhole : whole = digits ++ List.replicate k '0' := by
      simp only [whole, hk, Nat.add_sub_cancel_left]
      exact List.take_of_length_le (by simp)
    have hfraction : fraction.isEmpty = true := by
      simp [fraction, h]
    have hzero : digits ++ List.replicate k '0' ++ ['0'] = digits ++
        List.replicate (k + 1) '0' := by
      rw [List.append_assoc, ← List.replicate_succ']
    rw [hfraction, hwhole, if_pos rfl,
      readDecimal_point (hdigits.append (areDigits_zeros k)) areDigits_zero,
      hzero, ofDigitChars_append_zeros]
    have hpower : (n : ℤ) + 1 - digits.length = k := by omega
    rw [hpower, pow_succ]
    push_cast
    norm_num
    ring

/-- The digits as they are laid out read as the digits, with the first one at the place of its
exponent. -/
private theorem readDecimal_layOut (hdigits : AreDigits digits) (hne : digits ≠ []) (lead : ℤ) :
    readDecimal (layOut digits lead).toList =
      Nat.ofDigitChars 10 digits 0 * 10 ^ (lead + 1 - digits.length) := by
  unfold layOut
  split
  · split
    · next hneg =>
      obtain ⟨n, rfl⟩ : ∃ n : ℕ, lead = -(n + 1 : ℕ) := ⟨(-lead - 1).toNat, by omega⟩
      have hn : (-(-((n + 1 : ℕ) : ℤ)) - 1).toNat = n := by omega
      have hread : readDecimal (['0'] ++ '.' :: (List.replicate n '0' ++ digits)) = _ :=
        readDecimal_point areDigits_zero ((areDigits_zeros n).append hdigits)
      rw [String.toList_ofList, hn]
      refine hread.trans ?_
      rw [List.length_append, List.length_replicate]
      congr 2
      · exact ofDigitChars_zeros (n + 1) digits
      · push_cast
        ring
    · next hneg =>
      obtain ⟨n, rfl⟩ : ∃ n : ℕ, lead = n := ⟨lead.toNat, by omega⟩
      rw [String.toList_ofList]
      exact readDecimal_layOut_whole hdigits n
  · rw [String.toList_ofList]
    match digits, hne with
    | [d], _ =>
      refine (readDecimal_power hdigits _).trans ?_
      rw [powerOf_signed]
      congr 2
      simp
    | d :: c :: rest, _ =>
      obtain ⟨hd, hrest⟩ := List.forall_mem_cons.1 hdigits
      refine (readDecimal_point_power (List.forall_mem_singleton.2 hd) hrest _).trans ?_
      rw [powerOf_signed]
      congr 2
      simp

/-- The first character of digits that are laid out is a digit. -/
private theorem head?_layOut (hdigits : AreDigits digits) (hne : digits ≠ []) (lead : ℤ) :
    ∃ c rest, (layOut digits lead).toList = c :: rest ∧ c.isDigit = true := by
  obtain ⟨d, rest, rfl⟩ := List.exists_cons_of_ne_nil hne
  have hd : d.isDigit = true := hdigits d List.mem_cons_self
  unfold layOut
  split
  · split
    · exact ⟨'0', _, String.toList_ofList, rfl⟩
    · exact ⟨d, _, String.toList_ofList, hd⟩
  · cases rest with
    | nil => exact ⟨d, _, String.toList_ofList, hd⟩
    | cons c rest => exact ⟨d, _, String.toList_ofList, hd⟩

/-! ## The text determines the number -/

/-- The text of the absolute value. -/
def magnitudeText (x : Binary64) : String :=
  if x.isZero then "0.0"
  else
    let digits := Nat.toDigits 10 x.shortest.digits
    layOut digits (x.shortest.exponent + (digits.length : Int) - 1)

theorem text_eq (x : Binary64) :
    x.text = if x.isNegative then "-" ++ x.magnitudeText else x.magnitudeText := rfl

private theorem head?_magnitudeText (x : Binary64) :
    ∃ c rest, x.magnitudeText.toList = c :: rest ∧ c.isDigit = true := by
  unfold magnitudeText
  split
  · exact ⟨'0', ['.', '0'], rfl, rfl⟩
  · exact head?_layOut (areDigits_toDigits _) Nat.toDigits_ne_nil _

theorem readDecimal_magnitudeText (hx : x.isZero = false) :
    readDecimal x.magnitudeText.toList = x.shortest.value := by
  rw [magnitudeText, hx, if_neg (by decide),
    readDecimal_layOut (areDigits_toDigits _) Nat.toDigits_ne_nil,
    Nat.ofDigitChars_ten_toDigits, Decimal.value, sub_add_cancel, add_sub_cancel_right]

theorem readDecimal_magnitudeText_zero (hx : x.isZero = true) :
    readDecimal x.magnitudeText.toList = 0 := by
  have hread : readDecimal (['0'] ++ '.' :: ['0']) = _ :=
    readDecimal_point areDigits_zero areDigits_zero
  rw [magnitudeText, hx, if_pos rfl]
  refine hread.trans ?_
  simp [Nat.ofDigitChars]

theorem value_shortest_pos (hx : x.isZero = false) : 0 < x.shortest.value := by
  obtain ⟨n, hn⟩ := exists_rank hx
  obtain ⟨habove, -⟩ := (readBy_iff hn).1 (readBy_shortest hx)
  have hpos := midpoint_pos n
  rcases habove with h | ⟨-, h⟩ <;> linarith

/-- The text of the absolute value determines it. -/
theorem rank_eq_of_magnitudeText (h : x.magnitudeText = y.magnitudeText) : x.rank = y.rank := by
  have hread : readDecimal x.magnitudeText.toList = readDecimal y.magnitudeText.toList := by rw [h]
  cases hx : x.isZero with
  | true =>
    rw [readDecimal_magnitudeText_zero hx] at hread
    cases hy : y.isZero with
    | true => rw [isZero_iff.1 hx, isZero_iff.1 hy]
    | false =>
      rw [readDecimal_magnitudeText hy] at hread
      exact absurd hread (value_shortest_pos hy).ne
  | false =>
    rw [readDecimal_magnitudeText hx] at hread
    cases hy : y.isZero with
    | true =>
      rw [readDecimal_magnitudeText_zero hy] at hread
      exact absurd hread (value_shortest_pos hx).ne'
    | false =>
      rw [readDecimal_magnitudeText hy] at hread
      exact rank_eq_of_readBy hx hy (readBy_shortest hx) (readBy_shortest hy) hread

/-- A floating-point number is determined by its text. -/
theorem text_injective : Function.Injective text := by
  have hsign (x y : Binary64) : "-" ++ x.magnitudeText ≠ y.magnitudeText := by
    intro h
    obtain ⟨c, rest, hy, hc⟩ := head?_magnitudeText y
    have hlist : '-' :: x.magnitudeText.toList = c :: rest := by
      rw [← hy, ← h, String.toList_append]
      rfl
    rw [← (List.cons.inj hlist).1] at hc
    exact absurd hc (by decide)
  intro x y h
  rw [text_eq, text_eq] at h
  cases hx : x.isNegative <;> cases hy : y.isNegative <;>
    simp only [hx, hy, if_true, Bool.false_eq_true, if_false] at h
  · exact eq_of_rank (hx.trans hy.symm) (rank_eq_of_magnitudeText h)
  · exact absurd h.symm (hsign y x)
  · exact absurd h (hsign x y)
  · refine eq_of_rank (hx.trans hy.symm) (rank_eq_of_magnitudeText ?_)
    exact String.toList_inj.1 (by simpa using congrArg String.toList h)

/-! ## The characters of the text -/

/-- Whether numbers are written with the character. -/
def isNumeric (c : Char) : Bool := c.isDigit || c ∈ ['-', '+', '.', 'e']

theorem isNumeric_of_digits (h : AreDigits digits) : ∀ c ∈ digits, isNumeric c = true := by
  intro c hc
  rw [isNumeric, h c hc, Bool.true_or]

/-- Digits are laid out with the characters of numbers, a point or the mark of an exponent among
them. -/
private theorem mem_layOut (hdigits : AreDigits digits) (lead : ℤ) :
    (∀ c ∈ (layOut digits lead).toList, isNumeric c = true) ∧
      ('.' ∈ (layOut digits lead).toList ∨ 'e' ∈ (layOut digits lead).toList) := by
  have hplain := isNumeric_of_digits hdigits
  have hzeros (n : ℕ) := isNumeric_of_digits (areDigits_zeros n)
  unfold layOut
  split
  · split
    · rw [String.toList_ofList]
      refine ⟨?_, .inl (by simp)⟩
      refine List.forall_mem_cons.2 ⟨rfl, List.forall_mem_cons.2 ⟨rfl, ?_⟩⟩
      exact List.forall_mem_append.2 ⟨hzeros _, hplain⟩
    · rw [String.toList_ofList]
      refine ⟨List.forall_mem_append.2 ⟨?_, List.forall_mem_cons.2 ⟨rfl, ?_⟩⟩, .inl (by simp)⟩
      · exact fun c hc => List.forall_mem_append.2 ⟨hplain, hzeros _⟩ c (List.mem_of_mem_take hc)
      · split
        · exact List.forall_mem_singleton.2 rfl
        · exact fun c hc => hplain c (List.mem_of_mem_drop hc)
  · rw [String.toList_ofList]
    refine ⟨List.forall_mem_append.2 ⟨?_,
      List.forall_mem_cons.2 ⟨rfl, List.forall_mem_cons.2 ⟨?_, ?_⟩⟩⟩, .inr (by simp)⟩
    · match digits with
      | [] => exact List.forall_mem_nil _
      | [d] => exact hplain
      | d :: c :: rest =>
        obtain ⟨hd, hrest⟩ := List.forall_mem_cons.1 hplain
        exact List.forall_mem_cons.2 ⟨hd, List.forall_mem_cons.2 ⟨rfl, hrest⟩⟩
    · split <;> rfl
    · exact isNumeric_of_digits (areDigits_toDigits _)

private theorem mem_magnitudeText (x : Binary64) :
    (∀ c ∈ x.magnitudeText.toList, isNumeric c = true) ∧
      ('.' ∈ x.magnitudeText.toList ∨ 'e' ∈ x.magnitudeText.toList) := by
  unfold magnitudeText
  split
  · exact ⟨List.all_eq_true.1 (by decide), by decide⟩
  · exact mem_layOut (areDigits_toDigits _) _

theorem mem_text (x : Binary64) :
    (∀ c ∈ x.text.toList, isNumeric c = true) ∧ ('.' ∈ x.text.toList ∨ 'e' ∈ x.text.toList) := by
  obtain ⟨hchars, hmark⟩ := mem_magnitudeText x
  rw [text_eq]
  split
  · rw [String.toList_append]
    exact ⟨List.forall_mem_cons.2 ⟨rfl, hchars⟩,
      hmark.imp (List.mem_append_right _) (List.mem_append_right _)⟩
  · exact ⟨hchars, hmark⟩

end Binary64

end ReactiveMarkup
