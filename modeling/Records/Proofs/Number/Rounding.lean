import Mathlib.Algebra.Order.Field.Power
import Mathlib.Tactic.FieldSimp
import Mathlib.Tactic.Linarith
import Mathlib.Tactic.Positivity
import Mathlib.Tactic.Ring
import Records.Number.Decimal

/-!
Rounding a quotient to a number. The result depends on the rational number that the quotient stands
for, and a rational number that lies nearer to one number than half a unit of its last place is
rounded to this one.
-/
namespace Records.Number

section RoundQuotient
variable {n d k : Nat}

theorem roundQuotient_cases (n d : Nat) :
    (roundQuotient n d = n / d ∧ 2 * (n % d) ≤ d) ∨
      (roundQuotient n d = n / d + 1 ∧ d ≤ 2 * (n % d)) := by
  have hparity := Nat.mod_two_eq_zero_or_one (n / d)
  unfold roundQuotient
  dsimp only
  split
  · exact .inl ⟨rfl, by omega⟩
  · split
    · exact .inr ⟨rfl, by omega⟩
    · omega

/-- A whole number is no further from what is rounded to it than a half. -/
theorem roundQuotient_within (hd : 0 < d) :
    2 * n ≤ 2 * (roundQuotient n d * d) + d ∧ 2 * (roundQuotient n d * d) ≤ 2 * n + d := by
  have hsplit : n / d * d + n % d = n := Nat.div_add_mod' n d
  have hrest : n % d < d := Nat.mod_lt n hd
  obtain ⟨hround, hhalf⟩ | ⟨hround, hhalf⟩ := roundQuotient_cases n d
  · rw [hround]
    omega
  · rw [hround, Nat.add_mul, Nat.one_mul]
    omega

/-- What is nearer to a whole number than a half is rounded to this number. -/
theorem roundQuotient_of_near (hd : 0 < d) (hlow : 2 * (k * d) < 2 * n + d)
    (hhigh : 2 * n < 2 * (k * d) + d) : roundQuotient n d = k := by
  have hsplit : d * (n / d) + n % d = n := Nat.div_add_mod n d
  have hrest : n % d < d := Nat.mod_lt n hd
  have hbelow : n / d ≤ k := by
    by_contra hlt
    have hmul : d * (k + 1) ≤ d * (n / d) := Nat.mul_le_mul_left d (by omega)
    rw [Nat.mul_add, Nat.mul_one, Nat.mul_comm d k] at hmul
    omega
  have habove : k ≤ n / d + 1 := by
    by_contra hlt
    have hmul : d * (n / d + 2) ≤ d * k := Nat.mul_le_mul_left d (by omega)
    rw [Nat.mul_add, Nat.mul_comm d k] at hmul
    omega
  obtain hk | hk : k = n / d ∨ k = n / d + 1 := by omega
  · have hkd : k * d = d * (n / d) := by rw [hk, Nat.mul_comm]
    obtain ⟨hround, -⟩ | ⟨-, hhalf⟩ := roundQuotient_cases n d <;> omega
  · have hkd : k * d = d * (n / d) + d := by rw [hk, Nat.add_mul, Nat.one_mul, Nat.mul_comm]
    obtain ⟨-, hhalf⟩ | ⟨hround, -⟩ := roundQuotient_cases n d <;> omega

theorem roundQuotient_mul (n d : Nat) {c : Nat} (hc : 0 < c) :
    roundQuotient (n * c) (d * c) = roundQuotient n d := by
  have hleft : 2 * (n % d * c) < d * c ↔ 2 * (n % d) < d := by
    rw [← Nat.mul_assoc]
    exact Nat.mul_lt_mul_right hc
  have hright : d * c < 2 * (n % d * c) ↔ d < 2 * (n % d) := by
    rw [← Nat.mul_assoc]
    exact Nat.mul_lt_mul_right hc
  unfold roundQuotient
  simp only [Nat.mul_div_mul_right n d hc, Nat.mul_mod_mul_right, hleft, hright]

/-- A quotient is rounded as the number it stands for. -/
theorem roundQuotient_congr {n' d' : Nat} (hd : 0 < d) (hd' : 0 < d') (h : n * d' = n' * d) :
    roundQuotient n d = roundQuotient n' d' := by
  rw [← roundQuotient_mul n d hd', ← roundQuotient_mul n' d' hd, h, Nat.mul_comm d d']

end RoundQuotient

namespace Double

section Scaled
variable (num den : Nat) (e : Int)

theorem scaled_pos (hden : 0 < den) : 0 < (scaled num den e).2 := by
  cases e with
  | ofNat k => exact Nat.mul_pos hden (Nat.pow_pos (by decide))
  | negSucc k => exact hden

theorem scaled_quotient :
    ((scaled num den e).1 : ℚ) / (scaled num den e).2 = (num : ℚ) / den / 2 ^ e := by
  cases e with
  | ofNat k =>
    change ((num : ℚ) / (den * Nat.pow 2 k : Nat)) = (num : ℚ) / den / 2 ^ (k : Int)
    rw [Nat.pow_eq, Nat.cast_mul, Nat.cast_pow, zpow_natCast, div_div]
    rfl
  | negSucc k =>
    change ((num * Nat.pow 2 (k + 1) : Nat) : ℚ) / den = (num : ℚ) / den / 2 ^ Int.negSucc k
    rw [Nat.pow_eq, Nat.cast_mul, Nat.cast_pow, zpow_negSucc, div_inv_eq_mul, mul_div_right_comm]
    rfl

end Scaled

/-- The exponent under which a number fills 53 bits, unless it is already the least one. -/
structure IsGrid (x : ℚ) (e : Int) : Prop where
  least : -1074 ≤ e
  fits : x < 2 ^ (e + 53)
  fills : e = -1074 ∨ 2 ^ (e + 52) ≤ x

theorem two_zpow_pos (e : Int) : (0 : ℚ) < 2 ^ e := by positivity

theorem two_zpow_le {a b : Int} (h : a ≤ b) : (2 : ℚ) ^ a ≤ 2 ^ b :=
  zpow_le_zpow_right₀ (by norm_num) h

theorem IsGrid.unique {x : ℚ} {e e' : Int} (h : IsGrid x e) (h' : IsGrid x e') : e = e' := by
  have hnot {e e' : Int} (h : IsGrid x e) (h' : IsGrid x e') : ¬e < e' := by
    intro hlt
    have hleast := h.least
    have hfull : (2 : ℚ) ^ (e' + 52) ≤ x := h'.fills.resolve_left (by omega)
    have hover : (2 : ℚ) ^ (e + 53) ≤ 2 ^ (e' + 52) := two_zpow_le (by omega)
    have hfits := h.fits
    linarith
  have := hnot h h'
  have := hnot h' h
  omega

section OfQuotient
variable {num den : Nat}

/-- The bits of a numerator and a denominator tell the size of their quotient. -/
theorem quotient_between (hnum : 0 < num) (hden : 0 < den) :
    (2 : ℚ) ^ ((num.log2 : Int) - den.log2 - 1) < num / den ∧
      (num : ℚ) / den < 2 ^ ((num.log2 : Int) - den.log2 + 1) := by
  have hpos : (0 : ℚ) < den := by exact_mod_cast hden
  have hnumlow : (2 : ℚ) ^ (num.log2 : Int) ≤ num := by
    rw [zpow_natCast]
    exact_mod_cast Nat.log2_self_le hnum.ne'
  have hnumhigh : (num : ℚ) < 2 ^ ((num.log2 : Int) + 1) := by
    exact_mod_cast Nat.lt_log2_self (n := num)
  have hdenlow : (2 : ℚ) ^ (den.log2 : Int) ≤ den := by
    rw [zpow_natCast]
    exact_mod_cast Nat.log2_self_le hden.ne'
  have hdenhigh : (den : ℚ) < 2 ^ ((den.log2 : Int) + 1) := by
    exact_mod_cast Nat.lt_log2_self (n := den)
  refine ⟨(lt_div_iff₀ hpos).2 ?_, (div_lt_iff₀ hpos).2 ?_⟩
  · calc (2 : ℚ) ^ ((num.log2 : Int) - den.log2 - 1) * den
        < 2 ^ ((num.log2 : Int) - den.log2 - 1) * 2 ^ ((den.log2 : Int) + 1) :=
          mul_lt_mul_of_pos_left hdenhigh (two_zpow_pos _)
      _ = 2 ^ (num.log2 : Int) := by
          rw [← zpow_add₀ (by norm_num)]
          congr 1
          omega
      _ ≤ num := hnumlow
  · calc (num : ℚ) < 2 ^ ((num.log2 : Int) + 1) := hnumhigh
      _ = 2 ^ ((num.log2 : Int) - den.log2 + 1) * 2 ^ (den.log2 : Int) := by
          rw [← zpow_add₀ (by norm_num)]
          congr 1
          omega
      _ ≤ 2 ^ ((num.log2 : Int) - den.log2 + 1) * den :=
          mul_le_mul_of_nonneg_left hdenlow (two_zpow_pos _).le

theorem leastOver_eq_zpow : ((leastOver : Nat) : ℚ) = 2 ^ (53 : Int) := by
  unfold leastOver
  norm_num

theorem leastFull_eq_zpow : ((leastFull : Nat) : ℚ) = 2 ^ (52 : Int) := by
  unfold leastFull
  norm_num

/-- Whether a quotient under an exponent has at most 53 bits. -/
theorem scaled_lt_leastOver (hden : 0 < den) (e : Int) :
    (scaled num den e).1 / (scaled num den e).2 < leastOver ↔
      (num : ℚ) / den < 2 ^ (e + 53) := by
  have hpos := scaled_pos num den e hden
  have hcast : (0 : ℚ) < (scaled num den e).2 := by exact_mod_cast hpos
  rw [Nat.div_lt_iff_lt_mul hpos, ← Nat.cast_lt (α := ℚ), Nat.cast_mul, ← div_lt_iff₀ hcast,
    scaled_quotient, leastOver_eq_zpow, div_lt_iff₀ (two_zpow_pos e), ← zpow_add₀ (by norm_num),
    add_comm 53 e]

/-- The exponent that the bits of a numerator and a denominator leave, or one more. -/
def exponentFor (num den : Nat) : Int :=
  let low := max ((num.log2 : Int) - den.log2 - 53) (-1074)
  if (scaled num den low).1 / (scaled num den low).2 < leastOver then low else low + 1

theorem isGrid_exponentFor (hnum : 0 < num) (hden : 0 < den) :
    IsGrid ((num : ℚ) / den) (exponentFor num den) := by
  obtain ⟨hlow, hhigh⟩ := quotient_between hnum hden
  unfold exponentFor
  dsimp only
  split
  case isTrue hfits =>
    refine ⟨le_max_right .., (scaled_lt_leastOver hden _).1 hfits, ?_⟩
    rcases max_choice ((num.log2 : Int) - den.log2 - 53) (-1074) with hmax | hmax
    · right
      rw [hmax]
      exact (two_zpow_le (by omega)).trans hlow.le
    · exact .inl hmax
  case isFalse hover =>
    have hfills := not_lt.1 (mt (scaled_lt_leastOver hden _).2 hover)
    refine ⟨by omega, hhigh.trans_le (two_zpow_le (by omega)), .inr ?_⟩
    rw [add_assoc]
    exact hfills

/-- A quotient is rounded under the exponent that it fills. -/
theorem ofQuotient_of_grid (hnum : 0 < num) (hden : 0 < den) {e : Int}
    (he : IsGrid ((num : ℚ) / den) e) (s : Bool) :
    ofQuotient s num den =
      assemble s (roundQuotient (scaled num den e).1 (scaled num den e).2) e := by
  have hsame : exponentFor num den = e := (isGrid_exponentFor hnum hden).unique he
  unfold exponentFor at hsame
  unfold ofQuotient
  rw [if_neg hnum.ne']
  dsimp only at hsame ⊢
  rw [hsame]

theorem ofQuotient_congr {num' den' : Nat} (hnum : 0 < num) (hden : 0 < den) (hnum' : 0 < num')
    (hden' : 0 < den') (h : (num : ℚ) / den = num' / den') (s : Bool) :
    ofQuotient s num den = ofQuotient s num' den' := by
  have he := isGrid_exponentFor hnum hden
  rw [ofQuotient_of_grid hnum hden he, ofQuotient_of_grid hnum' hden' (h ▸ he)]
  congr 1
  have hd := scaled_pos num den (exponentFor num den) hden
  have hd' := scaled_pos num' den' (exponentFor num den) hden'
  refine roundQuotient_congr hd hd' ?_
  have hsame := scaled_quotient num den (exponentFor num den)
  rw [h, ← scaled_quotient num' den', div_eq_div_iff (by positivity) (by positivity)] at hsame
  exact_mod_cast hsame

theorem assemble_negate (m : Nat) (e : Int) : (assemble false m e).negate = assemble true m e := by
  unfold assemble
  generalize (if m = leastOver then (leastFull, e + 1) else (m, e)) = carried
  dsimp only
  split <;> rfl

/-- The sign has no part in the rounding. -/
theorem ofQuotient_negate (num den : Nat) :
    (ofQuotient false num den).negate = ofQuotient true num den := by
  unfold ofQuotient
  split
  · rfl
  · exact assemble_negate _ _

theorem ofQuotient_signed {m : Nat} {e : Int} {h : Canonical m e}
    (heq : ofQuotient false num den = .finite false m e h) (s : Bool) :
    ofQuotient s num den = .finite s m e h := by
  cases s with
  | false => exact heq
  | true => rw [← ofQuotient_negate, heq]; rfl

theorem assemble_canonical {m : Nat} {e : Int} (h : Canonical m e) (s : Bool) :
    assemble s m e = .finite s m e h := by
  unfold assemble
  rw [if_neg h.1.ne]
  exact dif_pos h

theorem assemble_carry {e : Int} (h : Canonical leastFull (e + 1)) (s : Bool) :
    assemble s leastOver e = .finite s leastFull (e + 1) h := by
  unfold assemble
  rw [if_pos rfl]
  exact dif_pos h

/-- A quotient that is less than half a unit away from a whole number of units. -/
theorem roundQuotient_scaled {k : Nat} {e : Int} (hden : 0 < den)
    (hnear : |(num : ℚ) / den - k * 2 ^ e| < 2 ^ e / 2) :
    roundQuotient (scaled num den e).1 (scaled num den e).2 = k := by
  have hpos := scaled_pos num den e hden
  have hcast : (0 : ℚ) < (scaled num den e).2 := by exact_mod_cast hpos
  have hquotient := scaled_quotient num den e
  have hunit := two_zpow_pos e
  rw [eq_div_iff hunit.ne'] at hquotient
  generalize (scaled num den e).1 = n at hquotient ⊢
  generalize (scaled num den e).2 = d at hquotient hpos hcast ⊢
  rw [← hquotient, ← sub_mul, abs_mul, abs_of_pos hunit, mul_comm, ← lt_div_iff₀' hunit,
    div_right_comm, div_self hunit.ne', abs_lt] at hnear
  obtain ⟨hlow, hhigh⟩ := hnear
  rw [lt_sub_iff_add_lt, lt_div_iff₀ hcast] at hlow
  rw [sub_lt_iff_lt_add, div_lt_iff₀ hcast] at hhigh
  refine roundQuotient_of_near hpos ?_ ?_
  · have : (2 * (k * d) : ℚ) < 2 * n + d := by linarith
    exact_mod_cast this
  · have : (2 * n : ℚ) < 2 * (k * d) + d := by linarith
    exact_mod_cast this

/-- Just below a full mantissa, rounding carries into the next exponent. -/
theorem ofQuotient_below_full {e : Int} (h : Canonical leastFull (e + 1)) (hnum : 0 < num)
    (hden : 0 < den) (hexponent : -1074 ≤ e)
    (hless : (num : ℚ) / den < leastFull * 2 ^ (e + 1))
    (hgap : (leastFull : ℚ) * 2 ^ (e + 1) - num / den < 2 ^ (e + 1) / 4) (s : Bool) :
    ofQuotient s num den = .finite s leastFull (e + 1) h := by
  have hunit := two_zpow_pos e
  have hdouble : (2 : ℚ) ^ (e + 1) = 2 ^ e * 2 := zpow_add_one₀ (by norm_num) e
  have hwhole : ((leastFull : Nat) : ℚ) * 2 ^ (e + 1) = leastOver * 2 ^ e := by
    rw [hdouble]
    unfold leastFull leastOver
    push_cast
    ring
  rw [hwhole] at hless hgap
  have hgrid : IsGrid ((num : ℚ) / den) e := by
    refine ⟨hexponent, ?_, .inr ?_⟩
    · rw [zpow_add₀ (by norm_num), ← leastOver_eq_zpow]
      linarith
    · rw [zpow_add₀ (by norm_num), ← leastFull_eq_zpow]
      unfold leastOver at hgap
      unfold leastFull
      push_cast at hgap ⊢
      linarith
  have hround : roundQuotient (scaled num den e).1 (scaled num den e).2 = leastOver := by
    refine roundQuotient_scaled hden ?_
    rw [abs_lt]
    exact ⟨by linarith, by linarith⟩
  rw [ofQuotient_of_grid hnum hden hgrid, hround, assemble_carry h]

/-- A number is on the grid of what it is near to, unless it is just below a full mantissa. -/
theorem isGrid_of_near {m : Nat} {e : Int} {x : ℚ} (h : Canonical m e)
    (hnear : |x - m * 2 ^ e| < 2 ^ e / 2)
    (hfull : m = leastFull → e ≠ -1074 → (m : ℚ) * 2 ^ e ≤ x) : IsGrid x e := by
  have hunit := two_zpow_pos e
  obtain ⟨hlow, hhigh⟩ := abs_lt.1 hnear
  refine ⟨h.2.1, ?_, ?_⟩
  · have hmantissa : (m : ℚ) + 1 ≤ leastOver := by exact_mod_cast h.1
    have hmul := mul_le_mul_of_nonneg_right hmantissa hunit.le
    rw [zpow_add₀ (by norm_num), ← leastOver_eq_zpow]
    linarith
  · by_cases hbottom : e = -1074
    · exact .inl hbottom
    · right
      rw [zpow_add₀ (by norm_num), ← leastFull_eq_zpow]
      have hleast : leastFull ≤ m := h.2.2.2.resolve_right hbottom
      obtain rfl | hmore := hleast.eq_or_lt
      · rw [mul_comm]
        exact hfull rfl hbottom
      · have hmantissa : ((leastFull : Nat) : ℚ) + 1 ≤ m := by exact_mod_cast hmore
        have hmul := mul_le_mul_of_nonneg_right hmantissa hunit.le
        linarith

/-- What is nearer to a number than half a unit of its last place is rounded to this number. The
units below the least full mantissa are half as large. -/
theorem ofQuotient_near {m : Nat} {e : Int} (h : Canonical m e) (hnum : 0 < num) (hden : 0 < den)
    (hnear : |(num : ℚ) / den - m * 2 ^ e| < 2 ^ e / 2)
    (hbelow : m = leastFull → (m : ℚ) * 2 ^ e - num / den < 2 ^ e / 4) (s : Bool) :
    ofQuotient s num den = .finite s m e h := by
  by_cases hcarry : m = leastFull ∧ (num : ℚ) / den < m * 2 ^ e ∧ e ≠ -1074
  · obtain ⟨rfl, hless, hnot⟩ := hcarry
    have hleast := h.2.1
    obtain ⟨k, rfl⟩ : ∃ k, e = k + 1 := ⟨e - 1, by omega⟩
    exact ofQuotient_below_full h hnum hden (by omega) hless (hbelow rfl) s
  · have hgrid := isGrid_of_near h hnear fun hfull hbottom =>
      not_lt.1 fun hless => hcarry ⟨hfull, hless, hbottom⟩
    rw [ofQuotient_of_grid hnum hden hgrid, roundQuotient_scaled hden hnear,
      assemble_canonical h]

end OfQuotient

end Double

end Records.Number
