import Mathlib.Tactic.Linarith
import Mathlib.Tactic.LinearCombination
import Mathlib.Tactic.Positivity
import Records.Proofs.Store.Comparison
import Records.Proofs.Store.Order

/-!
Numbers are compared exactly. Two numbers that are equal are one, but for the sign of a zero, since
each has one canonical form; and an integer that some number equals is rounded to this number.
-/
namespace Records.Number.Double

/-- The least number is one over a power of two with this exponent. The power is never computed. -/
@[irreducible]
def depth : Nat := 1074

/-- The place of an exponent above the least one. -/
def place (e : Int) : Nat := (e + depth).toNat

/-- A mantissa with its sign. -/
def signed (s : Bool) (m : Nat) : Int := (if s then -1 else 1) * m

/-- A finite number counted in units of the least one. -/
def units (s : Bool) (m : Nat) (e : Int) : Int := signed s m * 2 ^ place e

theorem place_ofNat (k : Nat) : place (.ofNat k) = k + depth := by
  unfold place
  rw [Int.ofNat_eq_natCast]
  omega

theorem least_le {m : Nat} {e : Int} (h : Canonical m e) : -(depth : Int) ≤ e := by
  unfold depth
  exact h.2.1

theorem place_negSucc {m k : Nat} (h : Canonical m (.negSucc k)) :
    place (.negSucc k) + (k + 1) = depth := by
  have := least_le h
  unfold place
  omega

section Units
variable {s t : Bool} {m m' : Nat} {e e' : Int}

theorem units_of_quotient (h : Canonical m e) {a : Int} {d : Nat}
    (hq : (Double.finite s m e h).quotient? = some (a, d)) : a * 2 ^ depth = units s m e * d := by
  unfold units signed
  cases e with
  | ofNat k =>
    cases hq
    rw [place_ofNat, pow_add, Nat.pow_eq]
    push_cast
    ring
  | negSucc k =>
    cases hq
    rw [← place_negSucc h, pow_add, Nat.pow_eq]
    push_cast
    ring

theorem eq_of_quotients {a b : Int} {c d : Nat} (hc : 0 < c) (hd : 0 < d)
    (h : compareQuotients (a, c) (b, d) = .eq) {u v : Int} (hu : a * 2 ^ depth = u * c)
    (hv : b * 2 ^ depth = v * d) : u = v := by
  have hcross : a * d = b * c := Int.compare_eq_eq.1 h
  have hscaled : u * (c * d) = v * (c * d) := by
    calc u * (c * d) = a * 2 ^ depth * d := by rw [hu]; ring
      _ = b * 2 ^ depth * c := by linear_combination (2 ^ depth : Int) * hcross
      _ = v * (c * d) := by rw [hv]; ring
  have hpos : (0 : Int) < c * d := by positivity
  exact Int.eq_of_mul_eq_mul_right hpos.ne' hscaled

/-- Numbers that are equal are equally many units. -/
theorem units_of_compare {h : Canonical m e} {h' : Canonical m' e'}
    (heq : (Double.finite s m e h).compare? (.finite t m' e' h') = some .eq) :
    units s m e = units t m' e' := by
  obtain ⟨⟨a, c⟩, hc, hx⟩ := exists_quotient (s := s) h
  obtain ⟨⟨b, d⟩, hd, hy⟩ := exists_quotient (s := t) h'
  have horder : compareQuotients (a, c) (b, d) = .eq := by
    simpa [compare?, hx, hy] using heq
  exact eq_of_quotients hc hd horder (units_of_quotient h hx) (units_of_quotient h' hy)

theorem units_of_compareInt {h : Canonical m e} {n : Int}
    (heq : (Double.finite s m e h).compareInt? n = some .eq) : units s m e = n * 2 ^ depth := by
  obtain ⟨⟨a, c⟩, hc, hx⟩ := exists_quotient (s := s) h
  have horder : compareQuotients (a, c) (n, 1) = .eq := by
    simpa [compareInt?, hx] using heq
  exact eq_of_quotients hc Nat.one_pos horder (units_of_quotient h hx) (by simp)

theorem natAbs_units : (units s m e).natAbs = m * 2 ^ place e := by
  unfold units signed
  rw [Int.natAbs_mul, Int.natAbs_mul, Int.natAbs_pow]
  cases s <;> simp

theorem sign_of_units (hm : 0 < m) (heq : units s m e = units t m e) : s = t := by
  have hpos : (0 : Int) < m * 2 ^ place e := by positivity
  unfold units signed at heq
  cases s <;> cases t <;> first | rfl | (simp at heq; omega)

/-- A mantissa is full where the exponent is above the least one. -/
theorem full_of_place (h : Canonical m e) (hplace : 0 < place e) : leastFull ≤ m := by
  rcases h.2.2.2 with hfull | hleast
  · exact hfull
  · unfold place depth at hplace
    omega

/-- As many units have one mantissa and one exponent. -/
theorem canonical_unique (h : Canonical m e) (h' : Canonical m' e')
    (heq : m * 2 ^ place e = m' * 2 ^ place e') : m = m' ∧ e = e' := by
  -- With a greater exponent, the other mantissa would have more than 53 bits.
  have hnot {m m' : Nat} {e e' : Int} (h : Canonical m e) (h' : Canonical m' e')
      (heq : m * 2 ^ place e = m' * 2 ^ place e') : ¬place e < place e' := by
    intro hlt
    obtain ⟨k, hk⟩ := Nat.exists_eq_add_of_lt hlt
    have hmantissa : m = m' * 2 ^ (k + 1) := by
      rw [hk, Nat.add_assoc, Nat.pow_add, Nat.mul_comm (2 ^ place e), ← Nat.mul_assoc] at heq
      exact Nat.eq_of_mul_eq_mul_right (by positivity) heq
    have hfull : leastFull ≤ m' := full_of_place h' (by omega)
    have htwo : 2 ≤ 2 ^ (k + 1) := Nat.le_self_pow (by omega) 2
    have hover : leastFull * 2 ≤ m := hmantissa ▸ Nat.mul_le_mul hfull htwo
    have hbound : m < leastOver := h.1
    unfold leastFull at hover
    unfold leastOver at hbound
    omega
  have hplace : place e = place e' := by
    have := hnot h h' heq
    have := hnot h' h heq.symm
    omega
  refine ⟨?_, ?_⟩
  · rw [hplace] at heq
    exact Nat.eq_of_mul_eq_mul_right (by positivity) heq
  · have := h.2.1
    have := h'.2.1
    unfold place depth at hplace
    omega

end Units

section Rounding
variable {n m : Nat} {e : Int}

theorem leastOver_eq : leastOver = 2 ^ 53 := rfl

/-- A whole number that is a mantissa under an exponent: the bits of the number tell which
exponent. -/
theorem exponent_of_whole (hn : 0 < n) (h : Canonical m e)
    (heq : m * 2 ^ place e = n * 2 ^ depth) : place e + 52 = n.log2 + depth := by
  have hlow : 2 ^ n.log2 ≤ n := Nat.log2_self_le hn.ne'
  have hhigh : n < 2 ^ (n.log2 + 1) := Nat.lt_log2_self
  have hbound : m < 2 ^ 53 := h.1
  have habove : n.log2 + depth < 53 + place e := by
    refine (Nat.pow_lt_pow_iff_right (a := 2) (by decide)).1 ?_
    calc 2 ^ (n.log2 + depth) = 2 ^ n.log2 * 2 ^ depth := Nat.pow_add ..
      _ ≤ n * 2 ^ depth := Nat.mul_le_mul_right _ hlow
      _ = m * 2 ^ place e := heq.symm
      _ < 2 ^ 53 * 2 ^ place e := Nat.mul_lt_mul_of_pos_right hbound (by positivity)
      _ = 2 ^ (53 + place e) := (Nat.pow_add ..).symm
  have hfull : 2 ^ 52 ≤ m := by
    refine full_of_place h ?_
    unfold depth at habove
    omega
  have hbelow : 52 + place e < n.log2 + 1 + depth := by
    refine (Nat.pow_lt_pow_iff_right (a := 2) (by decide)).1 ?_
    calc 2 ^ (52 + place e) = 2 ^ 52 * 2 ^ place e := Nat.pow_add ..
      _ ≤ m * 2 ^ place e := Nat.mul_le_mul_right _ hfull
      _ = n * 2 ^ depth := heq
      _ < 2 ^ (n.log2 + 1) * 2 ^ depth := Nat.mul_lt_mul_of_pos_right hhigh (by positivity)
      _ = 2 ^ (n.log2 + 1 + depth) := (Nat.pow_add ..).symm
  omega

theorem roundQuotient_exact {k : Nat} (hk : 0 < k) : roundQuotient (m * k) k = m := by
  unfold roundQuotient
  rw [Nat.mul_mod_left, Nat.mul_div_cancel m hk, if_pos (by omega)]

theorem scaled_whole (h : Canonical m e) (heq : m * 2 ^ place e = n * 2 ^ depth) :
    ∃ k, 0 < k ∧ scaled n 1 e = (m * k, k) := by
  cases e with
  | ofNat j =>
    rw [place_ofNat, Nat.pow_add, ← Nat.mul_assoc] at heq
    have hwhole : m * 2 ^ j = n := Nat.eq_of_mul_eq_mul_right (by positivity) heq
    refine ⟨1 * 2 ^ j, by positivity, ?_⟩
    change (n, 1 * 2 ^ j) = _
    rw [Nat.one_mul, hwhole]
  | negSucc j =>
    have hdepth : place (.negSucc j) + (j + 1) = depth := place_negSucc h
    rw [← hdepth, Nat.pow_add, Nat.mul_comm (2 ^ place (.negSucc j)), ← Nat.mul_assoc] at heq
    have hwhole : m = n * 2 ^ (j + 1) := Nat.eq_of_mul_eq_mul_right (by positivity) heq
    refine ⟨1, Nat.one_pos, ?_⟩
    change (n * 2 ^ (j + 1), 1) = _
    rw [Nat.mul_one, hwhole]

/-- One bit more than a mantissa has is too many. -/
theorem scaled_over (hn : 0 < n) :
    leastOver ≤ (scaled n 1 (n.log2 - 53)).1 / (scaled n 1 (n.log2 - 53)).2 := by
  have hlow : 2 ^ n.log2 ≤ n := Nat.log2_self_le hn.ne'
  rw [leastOver_eq]
  cases hbits : (n.log2 : Int) - 53 with
  | ofNat j =>
    have hlog : n.log2 = 53 + j := by
      rw [Int.ofNat_eq_natCast] at hbits
      omega
    change 2 ^ 53 ≤ n / (1 * 2 ^ j)
    rw [Nat.one_mul, Nat.le_div_iff_mul_le (by positivity), ← Nat.pow_add, ← hlog]
    exact hlow
  | negSucc j =>
    have hlog : n.log2 + (j + 1) = 53 := by omega
    change 2 ^ 53 ≤ n * 2 ^ (j + 1) / 1
    rw [Nat.div_one, ← hlog, Nat.pow_add]
    exact Nat.mul_le_mul_right _ hlow

/-- A whole number that is a mantissa under an exponent is rounded to itself. -/
theorem ofQuotient_whole (hn : 0 < n) (h : Canonical m e)
    (heq : m * 2 ^ place e = n * 2 ^ depth) (s : Bool) : ofQuotient s n 1 = .finite s m e h := by
  have hplace := exponent_of_whole hn h heq
  have hleast := h.2.1
  have hwidth : max ((n.log2 : Int) - (Nat.log2 1 : Nat) - 53) (-1074) = n.log2 - 53 := by
    have : Nat.log2 1 = 0 := by decide
    omega
  have hexponent : (n.log2 : Int) - 53 + 1 = e := by
    unfold place depth at hplace
    omega
  have hassemble : assemble s m e = .finite s m e h := by
    have hne : m ≠ leastOver := h.1.ne
    unfold assemble
    rw [if_neg hne]
    exact dif_pos h
  obtain ⟨k, hk, hscaled⟩ := scaled_whole h heq
  unfold ofQuotient
  rw [if_neg hn.ne']
  dsimp only
  rw [hwidth, if_neg (Nat.not_lt.2 (scaled_over hn)), hexponent, hscaled]
  dsimp only
  rw [roundQuotient_exact hk, hassemble]

end Rounding

/-- Numbers that are equal are the same, but for the sign of a zero. -/
theorem unsignedZero_eq_of_compare {x y : Double} (h : x.compare? y = some .eq) :
    x.unsignedZero = y.unsignedZero := by
  cases x with
  | nan => cases h
  | infinite s =>
    cases y with
    | nan => cases h
    | infinite t => cases s <;> cases t <;> first | rfl | cases h
    | finite t m' e' h' => cases s <;> cases h
  | finite s m e hm =>
    cases y with
    | nan => cases h
    | infinite t => cases t <;> cases h
    | finite t m' e' hm' =>
      have hunits := units_of_compare h
      have habs : m * 2 ^ place e = m' * 2 ^ place e' := by
        rw [← natAbs_units (s := s), ← natAbs_units (s := t), hunits]
      obtain ⟨rfl, rfl⟩ := canonical_unique hm hm' habs
      cases m with
      | zero => rfl
      | succ m =>
        rw [sign_of_units (Nat.succ_pos m) hunits]

/-- A number that equals an integer is a mantissa under an exponent that is as many units. -/
theorem whole_of_compareInt {s : Bool} {m : Nat} {e n : Int} {h : Canonical m e}
    (heq : (Double.finite s m e h).compareInt? n = some .eq) :
    m * 2 ^ place e = n.natAbs * 2 ^ depth := by
  have htwo : (2 : Int).natAbs = 2 := rfl
  rw [← natAbs_units (s := s), units_of_compareInt heq, Int.natAbs_mul, Int.natAbs_pow, htwo]

/-- An integer that a number equals is rounded to this number. -/
theorem unsignedZero_ofInt {x : Double} {n : Int} (h : x.compareInt? n = some .eq) :
    (ofInt n).unsignedZero = x.unsignedZero := by
  cases x with
  | nan => cases h
  | infinite s => cases s <;> cases h
  | finite s m e hm =>
    have hwhole := whole_of_compareInt h
    by_cases hn : n = 0
    · subst hn
      obtain rfl : m = 0 := by
        rw [Int.natAbs_zero, Nat.zero_mul] at hwhole
        exact (Nat.mul_eq_zero.1 hwhole).resolve_right (by positivity)
      rfl
    · have hpos : 0 < m := Nat.pos_of_ne_zero fun hzero => by
        rw [hzero, Nat.zero_mul] at hwhole
        have hnat : n.natAbs = 0 := (Nat.mul_eq_zero.1 hwhole.symm).resolve_right (by positivity)
        omega
      have hunits := units_of_compareInt h
      have hsign : decide (n < 0) = s := by
        have hdepth : (0 : Int) < 2 ^ depth := by positivity
        have hsize : (0 : Int) < m * 2 ^ place e := by positivity
        unfold units signed at hunits
        cases s with
        | true =>
          rw [if_pos rfl] at hunits
          refine decide_eq_true (Int.not_le.1 fun hle => ?_)
          have hnonneg : 0 ≤ n * 2 ^ depth := mul_nonneg hle hdepth.le
          linarith
        | false =>
          rw [if_neg (by decide)] at hunits
          refine decide_eq_false fun hneg => ?_
          have hneg' : n * 2 ^ depth < 0 := mul_neg_of_neg_of_pos hneg hdepth
          linarith
      unfold ofInt
      rw [ofQuotient_whole (by omega) hm hwhole, hsign]

/-- The greatest integer of 64 bits is no number. -/
theorem ne_greatest (x : Double) : x.compareInt? 9223372036854775807 ≠ some .eq := by
  intro h
  cases x with
  | nan => cases h
  | infinite s => cases s <;> cases h
  | finite s m e hm =>
    have hwhole := whole_of_compareInt h
    have hplace := exponent_of_whole (by decide) hm hwhole
    -- It has 63 bits, and the last one is not zero.
    have hbits : Nat.log2 (Int.natAbs 9223372036854775807) = 62 := by decide +kernel
    have hlast : place e = 10 + depth := by omega
    rw [hlast, Nat.pow_add, ← Nat.mul_assoc] at hwhole
    have hten : m * 2 ^ 10 = Int.natAbs 9223372036854775807 :=
      Nat.eq_of_mul_eq_mul_right (by positivity) hwhole
    omega

end Records.Number.Double
