import Mathlib.Data.Nat.Cast.Order.Field
import Mathlib.Tactic.NormNum
import Records.Proofs.Number.Rounding

/-!
The shortest decimal of a number reads back as this number. Seventeen digits lie nearer to a number
than half a unit of its last place, so some count of digits up to seventeen is found; and whatever
is found stands for the same rational number when its zeros are moved into the power.
-/
namespace Records.Number

theorem ten_zpow_pos (k : Int) : (0 : ℚ) < 10 ^ k := by positivity

namespace Decimal

/-- The rational number a decimal stands for. -/
def value (d : Decimal) : ℚ := d.digits * 10 ^ d.power

section Scaled
variable (num den : Nat) (k : Int)

theorem scaled_pos (hden : 0 < den) : 0 < (scaled num den k).2 := by
  cases k with
  | ofNat k => exact Nat.mul_pos hden (Nat.pow_pos (by decide))
  | negSucc k => exact hden

theorem scaled_quotient :
    ((scaled num den k).1 : ℚ) / (scaled num den k).2 = (num : ℚ) / den / 10 ^ k := by
  cases k with
  | ofNat k =>
    change ((num : ℚ) / (den * Nat.pow 10 k : Nat)) = (num : ℚ) / den / 10 ^ (k : Int)
    rw [Nat.pow_eq, Nat.cast_mul, Nat.cast_pow, zpow_natCast, div_div]
    rfl
  | negSucc k =>
    change ((num * Nat.pow 10 (k + 1) : Nat) : ℚ) / den = (num : ℚ) / den / 10 ^ Int.negSucc k
    rw [Nat.pow_eq, Nat.cast_mul, Nat.cast_pow, zpow_negSucc, div_inv_eq_mul, mul_div_right_comm]
    rfl

end Scaled

section Moderate

/-- A decimal that is read by rounding: it is short, and its magnitude is one that numbers have. -/
structure Moderate (d : Decimal) : Prop where
  positive : 0 < d.digits
  short : d.digits < 10 ^ 18
  low : (10 : ℚ) ^ (-325 : Int) ≤ d.value
  high : d.value ≤ (10 : ℚ) ^ (310 : Int)

/-- The bits of a short number tell its decimal digits up to two. -/
theorem digits_of_bits : ∀ b < 60, 10 ^ (b * 30103 / 100000) ≤ 2 ^ b ∧
    2 ^ (b + 1) ≤ 10 ^ (b * 30103 / 100000 + 2) := by decide +kernel

theorem Moderate.magnitude {d : Decimal} (h : d.Moderate) :
    -330 ≤ (d.digits.log2 : Int) * 30103 / 100000 + d.power ∧
      (d.digits.log2 : Int) * 30103 / 100000 + d.power ≤ 310 := by
  have hbits : d.digits.log2 < 60 :=
    (Nat.log2_lt h.positive.ne').2 (h.short.trans (by decide))
  obtain ⟨hlow, hhigh⟩ := digits_of_bits _ hbits
  have hcount : (d.digits.log2 : Int) * 30103 / 100000 =
      (d.digits.log2 * 30103 / 100000 : Nat) := by omega
  rw [hcount]
  generalize d.digits.log2 * 30103 / 100000 = t at hlow hhigh
  have hpower := ten_zpow_pos d.power
  have hdigitslow : (10 : ℚ) ^ (t : Int) ≤ d.digits := by
    rw [zpow_natCast]
    exact_mod_cast hlow.trans (Nat.log2_self_le h.positive.ne')
  have hdigitshigh : (d.digits : ℚ) < 10 ^ ((t : Int) + 2) := by
    have hlt := (Nat.lt_log2_self (n := d.digits)).trans_le hhigh
    exact_mod_cast hlt
  have habove : (10 : ℚ) ^ ((t : Int) + d.power) ≤ 10 ^ (310 : Int) :=
    calc (10 : ℚ) ^ ((t : Int) + d.power) = 10 ^ (t : Int) * 10 ^ d.power :=
          zpow_add₀ (by norm_num) _ _
      _ ≤ d.value := mul_le_mul_of_nonneg_right hdigitslow hpower.le
      _ ≤ 10 ^ (310 : Int) := h.high
  have hbelow : (10 : ℚ) ^ (-325 : Int) < 10 ^ ((t : Int) + 2 + d.power) :=
    calc (10 : ℚ) ^ (-325 : Int) ≤ d.value := h.low
      _ < 10 ^ ((t : Int) + 2) * 10 ^ d.power := mul_lt_mul_of_pos_right hdigitshigh hpower
      _ = 10 ^ ((t : Int) + 2 + d.power) := (zpow_add₀ (by norm_num) _ _).symm
  rw [zpow_le_zpow_iff_right₀ (by norm_num)] at habove
  rw [zpow_lt_zpow_iff_right₀ (by norm_num)] at hbelow
  omega

/-- Such a decimal is rounded as the rational number it stands for. -/
theorem Moderate.ofDecimal_eq {d : Decimal} (h : d.Moderate) {num den : Nat} (hnum : 0 < num)
    (hden : 0 < den) (hvalue : (num : ℚ) / den = d.value) (s : Bool) :
    Double.ofDecimal s d.digits d.power = Double.ofQuotient s num den := by
  obtain ⟨hlow, hhigh⟩ := h.magnitude
  have hpositive := h.positive
  obtain ⟨digits, power⟩ := d
  unfold value at hvalue
  dsimp only at *
  unfold Double.ofDecimal
  rw [if_neg hpositive.ne']
  dsimp only
  rw [if_neg (by omega), if_neg (by omega)]
  cases power with
  | ofNat k =>
    refine Double.ofQuotient_congr (Nat.mul_pos hpositive (Nat.pow_pos (by decide))) Nat.one_pos
      hnum hden ?_ s
    rw [hvalue, Nat.cast_one, div_one, Nat.cast_mul, Nat.cast_pow]
    exact congrArg _ (zpow_natCast _ _).symm
  | negSucc k =>
    refine Double.ofQuotient_congr hpositive (Nat.pow_pos (by decide)) hnum hden ?_ s
    rw [hvalue, Nat.cast_pow, zpow_negSucc, div_eq_mul_inv]
    rfl

end Moderate

section Exponent
variable {num den : Nat}

theorem powerLe_iff (hden : 0 < den) (k : Int) :
    powerLe num den k = true ↔ (10 : ℚ) ^ k ≤ num / den := by
  have hpos := scaled_pos num den k hden
  have hcast : (0 : ℚ) < (scaled num den k).2 := by exact_mod_cast hpos
  have hpower := ten_zpow_pos k
  have hquotient := scaled_quotient num den k
  rw [div_eq_div_iff hcast.ne' hpower.ne'] at hquotient
  unfold powerLe
  rw [decide_eq_true_iff, ← Nat.cast_le (α := ℚ), ← one_le_div hcast, scaled_quotient,
    le_div_iff₀ hpower, one_mul]

theorem widths_above : ∀ w < 1100, 10 ^ (w * 30103 / 100000) ≤ 10 * 2 ^ w ∧
    2 ^ (w + 2) ≤ 10 ^ (w * 30103 / 100000 + 3) := by decide +kernel

theorem widths_below : ∀ w < 1100, 2 ^ w ≤ 10 ^ ((w * 30103 + 99999) / 100000 + 1) ∧
    4 * 10 ^ ((w * 30103 + 99999) / 100000) ≤ 1000 * 2 ^ w := by decide +kernel

/-- Where the search for the decimal exponent starts, for every binary width a number has. -/
theorem start_between {w : Int} (hlow : -1100 < w) (hhigh : w < 1100) :
    (10 : ℚ) ^ (w * 30103 / 100000 - 1) ≤ 2 ^ w ∧
      (2 : ℚ) ^ (w + 2) ≤ 10 ^ (w * 30103 / 100000 + 3) := by
  have hten : (10 : ℚ) ≠ 0 := by norm_num
  have htwo : (2 : ℚ) ≠ 0 := by norm_num
  obtain ⟨n, rfl | rfl⟩ := Int.eq_nat_or_neg w
  · obtain ⟨hbelow, habove⟩ := widths_above n (by omega)
    have hstart : (n : Int) * 30103 / 100000 = (n * 30103 / 100000 : Nat) := by omega
    rw [hstart]
    generalize n * 30103 / 100000 = t at hbelow habove
    refine ⟨?_, ?_⟩
    · rw [zpow_sub_one₀ hten, ← div_eq_mul_inv, div_le_iff₀ (by norm_num), mul_comm]
      exact_mod_cast hbelow
    · exact_mod_cast habove
  · obtain ⟨hbelow, habove⟩ := widths_below n (by omega)
    have hstart : -(n : Int) * 30103 / 100000 = -(((n * 30103 + 99999) / 100000 : Nat) : Int) := by
      omega
    rw [hstart]
    generalize (n * 30103 + 99999) / 100000 = t at hbelow habove
    refine ⟨?_, ?_⟩
    · rw [← neg_add', zpow_neg, zpow_neg, inv_le_inv₀ (by positivity) (by positivity)]
      exact_mod_cast hbelow
    · rw [zpow_add₀ htwo, zpow_add₀ hten, zpow_neg, zpow_neg, inv_mul_le_iff₀ (by positivity),
        mul_left_comm, ← div_eq_inv_mul, le_div_iff₀ (by positivity), zpow_natCast, zpow_natCast]
      have hcast : (4 * 10 ^ t : ℚ) ≤ 1000 * 2 ^ n := by exact_mod_cast habove
      norm_num
      linarith

/-- The exponent of the first decimal digit. -/
theorem exponentOf_between (hnum : 0 < num) (hden : 0 < den)
    (hlow : (2 : ℚ) ^ (-1090 : Int) ≤ num / den) (hhigh : (num : ℚ) / den < 2 ^ (1090 : Int)) :
    (10 : ℚ) ^ exponentOf num den ≤ num / den ∧
      (num : ℚ) / den < 10 ^ (exponentOf num den + 1) := by
  obtain ⟨hbelow, habove⟩ := Double.quotient_between hnum hden
  have hwidthlow : -1090 < (num.log2 : Int) - den.log2 + 1 :=
    (zpow_lt_zpow_iff_right₀ (a := (2 : ℚ)) (by norm_num)).1 (hlow.trans_lt habove)
  have hwidthhigh : (num.log2 : Int) - den.log2 - 1 < 1090 :=
    (zpow_lt_zpow_iff_right₀ (a := (2 : ℚ)) (by norm_num)).1 (hbelow.trans hhigh)
  obtain ⟨hstart, hend⟩ :=
    start_between (w := (num.log2 : Int) - den.log2 - 1) (by omega) (by omega)
  have hwidth : (num.log2 : Int) - den.log2 - 1 + 2 = (num.log2 : Int) - den.log2 + 1 := by omega
  rw [hwidth] at hend
  unfold exponentOf
  dsimp only
  generalize ((num.log2 : Int) - den.log2 - 1) * 30103 / 100000 = top at hstart hend ⊢
  have hfound (k : Int) : powerLe num den k = true ↔ (10 : ℚ) ^ k ≤ num / den :=
    powerLe_iff hden k
  have hmissed (k : Int) : ¬powerLe num den k = true ↔ (num : ℚ) / den < 10 ^ k := by
    rw [hfound, not_le]
  split
  case isTrue h3 =>
    refine ⟨(hfound _).1 h3, habove.trans_le (hend.trans_eq ?_)⟩
    congr 1
    omega
  case isFalse h3 =>
    rw [hmissed] at h3
    split
    case isTrue h2 =>
      refine ⟨(hfound _).1 h2, h3.trans_eq ?_⟩
      congr 1
      omega
    case isFalse h2 =>
      rw [hmissed] at h2
      split
      case isTrue h1 =>
        refine ⟨(hfound _).1 h1, h2.trans_eq ?_⟩
        congr 1
        omega
      case isFalse h1 =>
        rw [hmissed] at h1
        exact ⟨hstart.trans hbelow.le, h1⟩

end Exponent

section Neighbours
variable {num den : Nat} {power : Int} {d : Decimal}

/-- The decimals of a grid next to a quotient are those below and above it. -/
theorem of_mem_neighbours (hd : d ∈ neighbours num den power) : d.power = power ∧
    (d.digits = (scaled num den power).1 / (scaled num den power).2 ∨
      d.digits = (scaled num den power).1 / (scaled num den power).2 + 1) := by
  unfold neighbours at hd
  dsimp only at hd
  have hround := roundQuotient_cases (scaled num den power).1 (scaled num den power).2
  simp only [List.mem_cons, List.not_mem_nil, or_false] at hd
  obtain rfl | rfl := hd
  · exact ⟨rfl, by dsimp only; omega⟩
  · exact ⟨rfl, by dsimp only; omega⟩

/-- Under a power that is at most the quotient, neighbours are no more than twice as far from
zero and no less than half as far. -/
theorem neighbour_between (hden : 0 < den) (hpower : (10 : ℚ) ^ power ≤ num / den)
    (hd : d ∈ neighbours num den power) :
    (num : ℚ) / den / 2 ≤ d.value ∧ d.value ≤ 2 * (num / den) ∧
      ((d.digits : ℚ) - 1) * 10 ^ power ≤ num / den := by
  obtain ⟨hsame, hdigits⟩ := of_mem_neighbours hd
  have hpos := scaled_pos num den power hden
  have hcast : (0 : ℚ) < (scaled num den power).2 := by exact_mod_cast hpos
  have hten := ten_zpow_pos power
  have hquotient := scaled_quotient num den power
  generalize (scaled num den power).1 = n at hdigits hquotient
  generalize (scaled num den power).2 = q at hdigits hquotient hpos hcast
  rw [eq_div_iff hten.ne'] at hquotient
  have hfloor : ((n / q : Nat) : ℚ) ≤ n / q := Nat.cast_div_le
  have hceil : (n : ℚ) / q < (n / q : Nat) + 1 := by
    rw [div_lt_iff₀ hcast]
    have := Nat.lt_div_mul_add (a := n) hpos
    have hlt : n < (n / q + 1) * q := by rw [Nat.add_mul, Nat.one_mul]; exact this
    exact_mod_cast hlt
  have hone : (1 : ℚ) ≤ n / q := by
    rw [← hquotient] at hpower
    exact le_of_mul_le_mul_right (by rwa [one_mul]) hten
  have hwhole : (1 : ℚ) ≤ (n / q : Nat) := by
    have : 0 < n / q := by
      rw [one_le_div hcast] at hone
      exact Nat.div_pos (by exact_mod_cast hone) hpos
    exact_mod_cast this
  unfold value
  rw [hsame, ← hquotient]
  have hcases : (d.digits : ℚ) = (n / q : Nat) ∨ (d.digits : ℚ) = (n / q : Nat) + 1 := by
    rcases hdigits with h | h
    · exact .inl (by rw [h])
    · exact .inr (by rw [h]; push_cast; ring)
  refine ⟨?_, ?_, mul_le_mul_of_nonneg_right ?_ hten.le⟩
  · rw [mul_div_right_comm]
    refine mul_le_mul_of_nonneg_right ?_ hten.le
    rcases hcases with h | h <;> linarith
  · rw [← mul_assoc]
    refine mul_le_mul_of_nonneg_right ?_ hten.le
    rcases hcases with h | h <;> linarith
  · rcases hcases with h | h <;> linarith

/-- The nearest decimal of a grid is no further away than half of its unit. -/
theorem nearest_within (hden : 0 < den) :
    |(roundQuotient (scaled num den power).1 (scaled num den power).2 : ℚ) * 10 ^ power -
      num / den| ≤ 10 ^ power / 2 := by
  have hpos := scaled_pos num den power hden
  have hcast : (0 : ℚ) < (scaled num den power).2 := by exact_mod_cast hpos
  have hten := ten_zpow_pos power
  have hquotient := scaled_quotient num den power
  generalize (scaled num den power).1 = n at hquotient ⊢
  generalize (scaled num den power).2 = q at hquotient hpos hcast ⊢
  rw [eq_div_iff hten.ne'] at hquotient
  obtain ⟨hlow, hhigh⟩ := roundQuotient_within (n := n) hpos
  have hlow' : (2 * n : ℚ) ≤ 2 * (roundQuotient n q * q) + q := by exact_mod_cast hlow
  have hhigh' : (2 * (roundQuotient n q * q) : ℚ) ≤ 2 * n + q := by exact_mod_cast hhigh
  have hnear : |(roundQuotient n q : ℚ) - n / q| ≤ 1 / 2 := by
    rw [abs_le, neg_le_sub_iff_le_add, sub_le_iff_le_add, div_le_iff₀ hcast]
    refine ⟨by linarith, ?_⟩
    rw [← sub_le_iff_le_add', le_div_iff₀ hcast]
    linarith
  calc |(roundQuotient n q : ℚ) * 10 ^ power - num / den|
      = |(roundQuotient n q : ℚ) - n / q| * 10 ^ power := by
        rw [← hquotient, ← sub_mul, abs_mul, abs_of_pos hten]
    _ ≤ 1 / 2 * 10 ^ power := mul_le_mul_of_nonneg_right hnear hten.le
    _ = 10 ^ power / 2 := by ring

end Neighbours

section Normalize

theorem value_normalize_go (digits : Nat) (power : Int) (fuel : Nat) :
    (normalize.go digits power fuel).value = (⟨digits, power⟩ : Decimal).value := by
  induction fuel generalizing digits power with
  | zero => rfl
  | succ fuel ih =>
    rw [normalize.go]
    split
    case isTrue h =>
      have hdigits : (digits : ℚ) = (digits / 10 : Nat) * 10 := by
        exact_mod_cast (Nat.div_mul_cancel (Nat.dvd_of_mod_eq_zero h.2)).symm
      rw [ih]
      unfold value
      dsimp only
      rw [zpow_add_one₀ (by norm_num), hdigits]
      ring
    case isFalse => rfl

theorem digits_normalize_go {digits : Nat} (hpos : 0 < digits) (power : Int) (fuel : Nat) :
    0 < (normalize.go digits power fuel).digits ∧
      (normalize.go digits power fuel).digits ≤ digits := by
  induction fuel generalizing digits power with
  | zero => exact ⟨hpos, Nat.le_refl _⟩
  | succ fuel ih =>
    rw [normalize.go]
    split
    case isTrue h =>
      obtain ⟨hlow, hhigh⟩ := ih (by omega : 0 < digits / 10) (power + 1)
      exact ⟨hlow, hhigh.trans (Nat.div_le_self ..)⟩
    case isFalse => exact ⟨hpos, Nat.le_refl _⟩

theorem value_normalize (d : Decimal) : d.normalize.value = d.value := value_normalize_go ..

theorem Moderate.normalize {d : Decimal} (h : d.Moderate) : d.normalize.Moderate := by
  obtain ⟨hpos, hle⟩ := digits_normalize_go h.positive d.power d.digits.log2
  have hvalue := d.value_normalize
  exact ⟨hpos, hle.trans_lt h.short, hvalue ▸ h.low, hvalue ▸ h.high⟩

end Normalize

section Shortest
variable {m : Nat} {e : Int}

theorem exists_quotient_of_value {d : Decimal} (h : 0 < d.digits) :
    ∃ num den : Nat, 0 < num ∧ 0 < den ∧ (num : ℚ) / den = d.value := by
  have hpos := scaled_pos d.digits 1 (-d.power) Nat.one_pos
  have hquotient := scaled_quotient d.digits 1 (-d.power)
  rw [Nat.cast_one, div_one, zpow_neg, div_inv_eq_mul] at hquotient
  refine ⟨_, _, Nat.pos_of_ne_zero fun hzero => ?_, hpos, hquotient⟩
  rw [hzero, Nat.cast_zero, zero_div] at hquotient
  have hvalue : (0 : ℚ) < d.digits * 10 ^ d.power := by positivity
  exact hvalue.ne hquotient

/-- A decimal that is nearer to a number than half a unit of its last place is read as it. -/
theorem Moderate.ofDecimal_near {d : Decimal} (h : d.Moderate) (hm : Canonical m e)
    (hnear : |d.value - m * 2 ^ e| < 2 ^ e / 2)
    (hbelow : m = leastFull → (m : ℚ) * 2 ^ e - d.value < 2 ^ e / 4) (s : Bool) :
    Double.ofDecimal s d.digits d.power = .finite s m e hm := by
  obtain ⟨num, den, hnum, hden, hvalue⟩ := exists_quotient_of_value h.positive
  rw [h.ofDecimal_eq hnum hden hvalue]
  rw [← hvalue] at hnear hbelow
  exact Double.ofQuotient_near hm hnum hden hnear hbelow s

/-- Decimals of one rational number are read as one number. -/
theorem Moderate.ofDecimal_congr {d d' : Decimal} (h : d.Moderate) (h' : d'.Moderate)
    (hvalue : d.value = d'.value) {hm : Canonical m e}
    (hread : Double.ofDecimal false d.digits d.power = .finite false m e hm) (s : Bool) :
    Double.ofDecimal s d'.digits d'.power = .finite s m e hm := by
  obtain ⟨num, den, hnum, hden, hquotient⟩ := exists_quotient_of_value h.positive
  rw [h.ofDecimal_eq hnum hden hquotient] at hread
  rw [h'.ofDecimal_eq hnum hden (hquotient.trans hvalue)]
  exact Double.ofQuotient_signed hread s

/-- A finite number as the quotient that its digits are taken of. -/
theorem quotient_of_number (hm : 0 < m) : 0 < (Double.scaled m 1 (-e)).1 ∧
    0 < (Double.scaled m 1 (-e)).2 ∧
      ((Double.scaled m 1 (-e)).1 : ℚ) / (Double.scaled m 1 (-e)).2 = m * 2 ^ e := by
  have hpos := Double.scaled_pos m 1 (-e) Nat.one_pos
  have hquotient := Double.scaled_quotient m 1 (-e)
  rw [Nat.cast_one, div_one, zpow_neg, div_inv_eq_mul] at hquotient
  refine ⟨Nat.pos_of_ne_zero fun hzero => ?_, hpos, hquotient⟩
  rw [hzero, Nat.cast_zero, zero_div] at hquotient
  have hvalue : (0 : ℚ) < m * 2 ^ e := by positivity
  exact hvalue.ne hquotient

theorem number_between (h : Canonical m e) (hm : 0 < m) :
    (2 : ℚ) ^ (-1074 : Int) ≤ m * 2 ^ e ∧ (m : ℚ) * 2 ^ e < 2 ^ (1024 : Int) := by
  have hone : (1 : ℚ) ≤ m := by exact_mod_cast hm
  have hover : (m : ℚ) < 2 ^ (53 : Int) := by
    rw [← Double.leastOver_eq_zpow]
    exact_mod_cast h.1
  refine ⟨?_, ?_⟩
  · calc (2 : ℚ) ^ (-1074 : Int) ≤ 2 ^ e := Double.two_zpow_le h.2.1
      _ = 1 * 2 ^ e := (one_mul _).symm
      _ ≤ m * 2 ^ e := mul_le_mul_of_nonneg_right hone (Double.two_zpow_pos e).le
  · calc (m : ℚ) * 2 ^ e < 2 ^ (53 : Int) * 2 ^ e :=
          mul_lt_mul_of_pos_right hover (Double.two_zpow_pos e)
      _ = 2 ^ (53 + e) := (zpow_add₀ (by norm_num) _ _).symm
      _ ≤ 2 ^ (1024 : Int) := Double.two_zpow_le (by have := h.2.2.1; omega)

theorem range_low : (10 : ℚ) ^ (-325 : Int) ≤ 2 ^ (-1074 : Int) / 2 := by
  have hpowers : 2 * 2 ^ 1074 ≤ 10 ^ 325 := by decide +kernel
  rw [zpow_neg, zpow_neg, le_div_iff₀ (by norm_num), inv_mul_le_iff₀ (by positivity),
    ← div_eq_mul_inv, le_div_iff₀ (by positivity)]
  exact_mod_cast hpowers

theorem range_high : 2 * (2 : ℚ) ^ (1024 : Int) ≤ 10 ^ (310 : Int) := by
  have hpowers : 2 * 2 ^ 1024 ≤ 10 ^ 310 := by decide +kernel
  exact_mod_cast hpowers

section Digits
variable {num den : Nat} (hnum : 0 < num) (hden : 0 < den) (h : Canonical m e) (hm : 0 < m)
  (hvalue : (num : ℚ) / den = m * 2 ^ e)

include hnum hden h hm hvalue

theorem exponentOf_number : (10 : ℚ) ^ exponentOf num den ≤ m * 2 ^ e ∧
    (m : ℚ) * 2 ^ e < 10 ^ (exponentOf num den + 1) := by
  obtain ⟨hlow, hhigh⟩ := number_between h hm
  rw [← hvalue] at hlow hhigh ⊢
  exact exponentOf_between hnum hden ((Double.two_zpow_le (by omega)).trans hlow)
    (hhigh.trans_le (Double.two_zpow_le (by omega)))

/-- The candidates for the digits of a number are read by rounding. -/
theorem moderate_of_mem_neighbours {count : Nat} (hcount : count ≤ 16) {d : Decimal}
    (hd : d ∈ neighbours num den (exponentOf num den - count)) : d.Moderate := by
  obtain ⟨hlow, hhigh⟩ := number_between h hm
  obtain ⟨htop, hnext⟩ := exponentOf_number hnum hden h hm hvalue
  have hpower : (10 : ℚ) ^ (exponentOf num den - count) ≤ num / den := by
    rw [hvalue]
    exact (zpow_le_zpow_right₀ (by norm_num) (by omega)).trans htop
  obtain ⟨hhalf, htwice, hdigits⟩ := neighbour_between hden hpower hd
  rw [hvalue] at hhalf htwice hdigits
  have hpositive : 0 < d.digits := by
    refine Nat.pos_of_ne_zero fun hzero => ?_
    have hnothing : d.value = 0 := by rw [value, hzero, Nat.cast_zero, zero_mul]
    have := Double.two_zpow_pos (-1074)
    linarith
  refine ⟨hpositive, ?_, ?_, ?_⟩
  rotate_left
  · calc (10 : ℚ) ^ (-325 : Int) ≤ 2 ^ (-1074 : Int) / 2 := range_low
      _ ≤ m * 2 ^ e / 2 := div_le_div_of_nonneg_right hlow zero_le_two
      _ ≤ d.value := hhalf
  · calc d.value ≤ 2 * (m * 2 ^ e) := htwice
      _ ≤ 2 * 2 ^ (1024 : Int) := mul_le_mul_of_nonneg_left hhigh.le zero_le_two
      _ ≤ 10 ^ (310 : Int) := range_high
  have hten := ten_zpow_pos (exponentOf num den - count)
  have hfew : (d.digits : ℚ) - 1 < 10 ^ (17 : Int) := by
    refine lt_of_mul_lt_mul_right (hdigits.trans_lt (hnext.trans_le ?_)) hten.le
    rw [← zpow_add₀ (by norm_num)]
    exact zpow_le_zpow_right₀ (by norm_num) (by omega)
  have hbound : (d.digits : ℚ) < 10 ^ (18 : Int) :=
    calc (d.digits : ℚ) < 10 ^ (17 : Int) + 1 := sub_lt_iff_lt_add.1 hfew
      _ ≤ 10 ^ (18 : Int) := by norm_num
  exact_mod_cast hbound

/-- Seventeen digits are enough. -/
theorem seventeen_digits : ∃ d ∈ neighbours num den (exponentOf num den - 16),
    Double.ofDecimal false d.digits d.power = .finite false m e h := by
  obtain ⟨htop, -⟩ := exponentOf_number hnum hden h hm hvalue
  let nearest : Decimal := ⟨roundQuotient (scaled num den (exponentOf num den - 16)).1
    (scaled num den (exponentOf num den - 16)).2, exponentOf num den - 16⟩
  have hmem : nearest ∈ neighbours num den (exponentOf num den - 16) := List.mem_cons_self ..
  have hmoderate := moderate_of_mem_neighbours hnum hden h hm hvalue (Nat.le_refl 16) hmem
  have hunit := Double.two_zpow_pos e
  have hwithin : |nearest.value - m * 2 ^ e| ≤ m * 2 ^ e / 10 ^ 16 / 2 := by
    refine (hvalue ▸ nearest_within hden).trans (div_le_div_of_nonneg_right ?_ zero_le_two)
    rw [zpow_sub₀ (by norm_num)]
    exact div_le_div_of_nonneg_right htop (by positivity)
  refine ⟨nearest, hmem, hmoderate.ofDecimal_near h ?_ (fun hfull => ?_) false⟩
  · have hbits : (m : ℚ) < 10 ^ 16 := by exact_mod_cast h.1.trans (by decide)
    have hmul := mul_lt_mul_of_pos_right hbits hunit
    refine hwithin.trans_lt (div_lt_div_of_pos_right ?_ zero_lt_two)
    rw [div_lt_iff₀ (by positivity)]
    linarith
  · have hbelow := neg_le_of_abs_le hwithin
    rw [hfull, leastFull] at hbelow ⊢
    norm_num at hbelow ⊢
    linarith

end Digits

/-- The digits that are found are those of a decimal that is read as the number. -/
theorem exists_shortest (h : Canonical m e) (hm : 0 < m) : ∃ d : Decimal, d.Moderate ∧
    Double.ofDecimal false d.digits d.power = .finite false m e h ∧
      shortest m e = d.normalize := by
  obtain ⟨hnum, hden, hvalue⟩ := quotient_of_number (e := e) hm
  have hexact : Double.ofQuotient false (Double.scaled m 1 (-e)).1 (Double.scaled m 1 (-e)).2 =
      .finite false m e h := by
    refine Double.ofQuotient_near h hnum hden ?_ (fun _ => ?_) false
    · rw [hvalue, sub_self, abs_zero]
      exact half_pos (Double.two_zpow_pos e)
    · rw [hvalue, sub_self]
      exact div_pos (Double.two_zpow_pos e) (by norm_num)
  unfold shortest
  dsimp only
  rw [hexact]
  generalize (Double.scaled m 1 (-e)).1 = num at hnum hvalue ⊢
  generalize (Double.scaled m 1 (-e)).2 = den at hden hvalue ⊢
  cases hfound : (List.range 17).findSome? fun count : Nat =>
      (neighbours num den (exponentOf num den - count)).find? fun d =>
        Double.ofDecimal false d.digits d.power = .finite false m e h with
  | none =>
    obtain ⟨d, hd, hread⟩ := seventeen_digits hnum hden h hm hvalue
    have hnone := List.findSome?_eq_none_iff.1 hfound 16 (by decide)
    have hnot := List.find?_eq_none.1 hnone d hd
    exact absurd (decide_eq_true hread) hnot
  | some d =>
    obtain ⟨count, hcount, hhit⟩ := List.exists_of_findSome?_eq_some hfound
    have hcount' : count < 17 := List.mem_range.1 hcount
    have hmem := List.mem_of_find?_eq_some hhit
    have hread : Double.ofDecimal false d.digits d.power = .finite false m e h := by
      simpa using List.find?_some hhit
    exact ⟨d, moderate_of_mem_neighbours hnum hden h hm hvalue (by omega) hmem, hread, rfl⟩

/-- Every short decimal of the rational number that the shortest digits stand for is read as the
number they are taken of. -/
theorem ofDecimal_of_value_eq (h : Canonical m e) (hm : 0 < m) {d : Decimal}
    (hshort : d.digits < 10 ^ 18) (hvalue : d.value = (shortest m e).value) (s : Bool) :
    Double.ofDecimal s d.digits d.power = .finite s m e h := by
  obtain ⟨found, hmoderate, hread, hshortest⟩ := exists_shortest h hm
  rw [hshortest, value_normalize] at hvalue
  have hpositive : 0 < d.digits := by
    refine Nat.pos_of_ne_zero fun hzero => ?_
    have hlow := hmoderate.low
    rw [← hvalue, value, hzero, Nat.cast_zero, zero_mul] at hlow
    exact (ten_zpow_pos (-325)).not_ge hlow
  have hd : d.Moderate := ⟨hpositive, hshort, hvalue ▸ hmoderate.low, hvalue ▸ hmoderate.high⟩
  exact hmoderate.ofDecimal_congr hd hvalue.symm hread s

theorem shortest_digits (h : Canonical m e) (hm : 0 < m) :
    0 < (shortest m e).digits ∧ (shortest m e).digits < 10 ^ 18 := by
  obtain ⟨found, hmoderate, -, hshortest⟩ := exists_shortest h hm
  rw [hshortest]
  exact ⟨hmoderate.normalize.positive, hmoderate.normalize.short⟩

end Shortest

end Decimal

end Records.Number
