import Records.Proofs.Calendar.Instant
import Records.Proofs.Number.Exact
import Records.Proofs.Staging.Single

/-!
Values that make no difference to a cell. Where the cell of a column reads as a value that is equal
to a given one, the column keeps of the given value the cell that it has; but the least integer may
be kept as an integer or as a number.
-/
namespace Records

open Records.Number (Double)

namespace Value
variable {v : Value}

theorem eq_null_of_same (h : Value.null.same v = true) : v = .null := by
  cases v <;> simp [same, numeric?] at h
  rfl

theorem eq_text_of_same {s : String} (h : (Value.text s).same v = true) : v = .text s := by
  cases v <;> simp [same, numeric?] at h
  rw [h]

theorem eq_bytes_of_same {b : List UInt8} (h : (Value.bytes b).same v = true) : v = .bytes b := by
  cases v <;> simp [same, numeric?] at h
  rw [h]

theorem eq_date_of_same {d : Calendar.Date} (h : (Value.date d).same v = true) : v = .date d := by
  cases v <;> simp [same, numeric?] at h
  rw [h]

theorem moment_of_same {m : Calendar.Moment} (h : (Value.moment m).same v = true) :
    ∃ m', v = .moment m' ∧ m.same m' = true := by
  cases v <;> simp [same, numeric?] at h
  exact ⟨_, rfl, h⟩

theorem eq_of_compare {m n : Int} (h : (some (compare m n) == some .eq) = true) : m = n :=
  Int.compare_eq_eq.1 (Option.some.inj (eq_of_beq h))

theorem same_int_cases {n : Int} (h : (Value.int n).same v = true) :
    (∃ b, v = .bool b ∧ b.toInt = n) ∨ v = .int n ∨
      ∃ y, v = .float y ∧ y.compareInt? n = some .eq := by
  cases v with
  | bool b => exact .inl ⟨b, rfl, (eq_of_compare h).symm⟩
  | int k => exact .inr (.inl (congrArg Value.int (eq_of_compare h).symm))
  | float y =>
    refine .inr (.inr ⟨y, rfl, ?_⟩)
    change ((y.compareInt? n).map Ordering.swap == some .eq) = true at h
    cases hc : y.compareInt? n with
    | none => simp [hc] at h
    | some o => cases o <;> simp [hc] at h ⊢
  | _ => simp [same, numeric?] at h

/-- A truth is equal to the integer that stands for it. -/
theorem same_bool_cases {b : Bool} (h : (Value.bool b).same v = true) :
    v = .bool b ∨ v = .int b.toInt ∨ ∃ y, v = .float y ∧ y.compareInt? b.toInt = some .eq := by
  have hint : (Value.int b.toInt).same v = true := by
    cases v <;> exact h
  refine (same_int_cases hint).imp_left fun ⟨b', hv, hb⟩ => ?_
  rw [hv]
  cases b <;> cases b' <;> first | rfl | cases hb

theorem same_float_cases {x : Double} (h : (Value.float x).same v = true) :
    (∃ b, v = .bool b ∧ x.compareInt? b.toInt = some .eq) ∨
      (∃ n, v = .int n ∧ x.compareInt? n = some .eq) ∨
      ∃ y, v = .float y ∧ x.compare? y = some .eq := by
  cases v with
  | bool b => exact .inl ⟨b, rfl, by simpa [same, numeric?, Numeric.compare?] using h⟩
  | int n => exact .inr (.inl ⟨n, rfl, by simpa [same, numeric?, Numeric.compare?] using h⟩)
  | float y => exact .inr (.inr ⟨y, rfl, by simpa [same, numeric?, Numeric.compare?] using h⟩)
  | _ => simp [same, numeric?] at h

end Value

namespace Cell

theorem ofDouble_integer {x : Double} {n : Int} (h : ofDouble x = .integer n) :
    x.integer? = some n ∧ -9223372036854775808 < n ∧ n < 9223372036854775807 := by
  unfold ofDouble at h
  split at h
  · rename_i k hk
    split at h
    · rename_i hrange
      cases h
      exact ⟨hk, hrange⟩
    · cases h
  · cases h

theorem ofDouble_of_compareInt {x : Double} {n : Int} (h : x.compareInt? n = some .eq) :
    ofDouble x = if -9223372036854775808 < n ∧ n < 9223372036854775807 then .integer n
      else .real x := by
  obtain ⟨d, hd, hq⟩ := Double.quotient?_of_compareInt? h
  have hinteger : x.integer? = some n := by
    unfold Double.integer?
    rw [hq]
    dsimp only
    rw [if_pos (Int.mul_emod_left n d), Int.mul_ediv_cancel n (by omega)]
  unfold ofDouble
  rw [hinteger]

theorem ofDouble_unsignedZero (x : Double) : ofDouble x.unsignedZero = ofDouble x := by
  cases x with
  | nan => rfl
  | infinite s => rfl
  | finite s m e h =>
    cases m with
    | succ m => rfl
    | zero =>
      have hzero {s : Bool} {e : Int} (h : Number.Canonical 0 e) :
          (Double.finite s 0 e h).compareInt? 0 = some .eq := by
        cases e <;> simp [Double.compareInt?, Double.quotient?, Double.compareQuotients]
      change ofDouble (Double.zero false) = _
      rw [ofDouble_of_compareInt (hzero h)]
      exact ofDouble_of_compareInt (hzero _)

theorem fits_of_range {n : Int} (h : -9223372036854775808 < n ∧ n < 9223372036854775807) :
    fitsInteger n = true := by
  unfold fitsInteger
  simp only [Bool.and_eq_true, decide_eq_true_eq]
  omega

/-- An integer that a column of integers keeps has 64 bits. -/
theorem fits_of_kept {form : Value} {bound : Cell} (hbound : bind form = .ok bound) {n : Int}
    (h : bound.kept .integer = .integer n) : fitsInteger n = true := by
  have hdouble {x : Double} (hx : ofDouble x = .integer n) : fitsInteger n = true :=
    fits_of_range (ofDouble_integer hx).2
  cases bound with
  | null => cases h
  | blob b => cases h
  | real x => exact hdouble h
  | integer k =>
    cases h
    cases form with
    | bool b =>
      cases hbound
      cases b <;> rfl
    | int k =>
      rw [bind_int] at hbound
      split at hbound
      · cases hbound
        assumption
      · cases hbound
    | float x => cases x <;> cases hbound
    | _ => cases hbound
  | text s =>
    cases hs : number? s with
    | none =>
      rw [kept_text hs] at h
      cases h
    | some c =>
      rw [kept_of_number? hs] at h
      unfold number? at hs
      obtain ⟨numeral, -, hs⟩ := Option.bind_eq_some_iff.1 hs
      split at hs
      · rename_i hfits
        obtain rfl := Option.some.inj hs
        cases h
        exact hfits.2
      · obtain rfl := Option.some.inj hs
        rw [kept_ofDouble] at h
        exact hdouble h

/-- The least integer of 64 bits, as an integer or as a number. -/
def IsLeast (c : Cell) : Prop :=
  c = .integer (-9223372036854775808) ∨
    ∃ x, c = .real x ∧ x.compareInt? (-9223372036854775808) = some .eq

/-- A number that equals an integer of 64 bits is kept as this integer, unless it is the least
one. -/
theorem ofDouble_of_fits {x : Double} {n : Int} (h : x.compareInt? n = some .eq)
    (hfits : fitsInteger n = true) : ofDouble x = .integer n ∨ ofDouble x = .real x ∧
      n = -9223372036854775808 := by
  rw [ofDouble_of_compareInt h]
  split
  · exact .inl rfl
  · rename_i hrange
    refine .inr ⟨rfl, ?_⟩
    have hgreatest : n ≠ 9223372036854775807 := by
      rintro rfl
      exact Double.ne_greatest x h
    unfold fitsInteger at hfits
    simp only [Bool.and_eq_true, decide_eq_true_eq] at hfits
    omega

end Cell

section Kinds
variable {v w form : Value} {bound bound' : Cell}

/-- A column of texts: what it holds is a text that was given, or bytes. -/
theorem unchanged_text {k : Kind} (hk : k = .text ∨ k = .untyped)
    (hbound : Cell.bind v = .ok bound')
    (hsame : ((bound.kept .text).decode k).same v = true) :
    bound'.kept .text = bound.kept .text := by
  have htext {t : String} (hcell : bound.kept .text = .text t) :
      bound'.kept .text = bound.kept .text := by
    rw [hcell] at hsame ⊢
    have hv : v = .text t := by rcases hk with rfl | rfl <;> exact Value.eq_text_of_same hsame
    subst hv
    cases hbound
    rfl
  cases bound with
  | null =>
    obtain rfl := Value.eq_null_of_same hsame
    cases hbound
    rfl
  | integer n => exact htext rfl
  | real x => exact htext rfl
  | text t => exact htext rfl
  | blob b =>
    obtain rfl := Value.eq_bytes_of_same hsame
    cases hbound
    rfl

/-- A column of integers, which keeps a whole number as an integer unless it is the least one. -/
theorem unchanged_int (hkept : Cell.bind w = .ok bound) (hbound : Cell.bind v = .ok bound')
    (hsame : ((bound.kept .integer).decode .int).same v = true) :
    bound'.kept .integer = bound.kept .integer ∨
      (bound.kept .integer).IsLeast ∧ (bound'.kept .integer).IsLeast := by
  cases hcell : bound.kept .integer with
  | null =>
    rw [hcell] at hsame
    obtain rfl := Value.eq_null_of_same hsame
    cases hbound
    exact .inl rfl
  | blob b =>
    rw [hcell] at hsame
    obtain rfl := Value.eq_bytes_of_same hsame
    cases hbound
    exact .inl rfl
  | text t =>
    rw [hcell] at hsame
    obtain rfl := Value.eq_text_of_same hsame
    cases hbound
    have hagain := Cell.kept_kept bound
    rw [hcell] at hagain
    exact .inl hagain
  | integer n =>
    rw [hcell] at hsame
    rcases Value.same_int_cases hsame with ⟨b, rfl, rfl⟩ | rfl | ⟨y, rfl, hy⟩
    · cases hbound
      exact .inl rfl
    · rw [Cell.bind_int] at hbound
      split at hbound
      · cases hbound
        exact .inl rfl
      · cases hbound
    · have hreal : bound' = .real y := by cases y <;> cases hbound <;> first | rfl | cases hy
      subst hreal
      rcases Cell.ofDouble_of_fits hy (Cell.fits_of_kept hkept hcell) with hint | ⟨hreal, rfl⟩
      · exact .inl hint
      · exact .inr ⟨.inl rfl, .inr ⟨y, hreal, hy⟩⟩
  | real x =>
    have hdouble : Cell.ofDouble x = .real x := by
      have hagain := Cell.kept_kept bound
      rw [hcell] at hagain
      exact hagain
    rw [hcell] at hsame
    rcases Value.same_float_cases hsame with ⟨b, rfl, hb⟩ | ⟨n, rfl, hn⟩ | ⟨y, rfl, hy⟩
    · cases hbound
      rcases Cell.ofDouble_of_fits hb (by cases b <;> rfl) with hint | ⟨-, hleast⟩
      · rw [hdouble] at hint
        cases hint
      · cases b <;> cases hleast
    · rw [Cell.bind_int] at hbound
      split at hbound
      · rename_i hfits
        cases hbound
        rcases Cell.ofDouble_of_fits hn hfits with hint | ⟨-, rfl⟩
        · rw [hdouble] at hint
          cases hint
        · exact .inr ⟨.inr ⟨x, rfl, hn⟩, .inl rfl⟩
      · cases hbound
    · have hreal : bound' = .real y := by
        cases y with
        | nan => cases x <;> cases hy
        | infinite | finite =>
          cases hbound
          rfl
      subst hreal
      refine .inl ?_
      calc Cell.ofDouble y = Cell.ofDouble y.unsignedZero := (Cell.ofDouble_unsignedZero y).symm
        _ = Cell.ofDouble x.unsignedZero := by rw [Double.unsignedZero_eq_of_compare hy]
        _ = Cell.ofDouble x := Cell.ofDouble_unsignedZero x
        _ = .real x := hdouble

theorem unsignedZero_idem (x : Double) : x.unsignedZero.unsignedZero = x.unsignedZero := by
  cases x with
  | nan => rfl
  | infinite => rfl
  | finite s m e h => cases m <;> rfl

/-- What a column of numbers is given is a number or nothing. -/
theorem bind_number (h : encodeNumber v = .ok form) (hbound : Cell.bind form = .ok bound) :
    bound = .null ∨ ∃ x, x ≠ .nan ∧ form = .float x ∧ bound = .real x := by
  by_cases hv : v = .null
  · subst hv
    cases h
    cases hbound
    exact .inl rfl
  · obtain ⟨x, rfl⟩ := encodeNumber_ok hv h
    cases x with
    | nan =>
      cases hbound
      exact .inl rfl
    | infinite | finite =>
      cases hbound
      refine .inr ⟨_, ?_, rfl, rfl⟩
      exact nofun

/-- A column of numbers, whose zero has no sign. -/
theorem unchanged_float (hform : encodeNumber w = .ok form) (hkept : Cell.bind form = .ok bound)
    {form' : Value} (hform' : encodeNumber v = .ok form') (hbound : Cell.bind form' = .ok bound')
    (hsame : ((bound.kept .real).decode .float).same v = true) :
    bound'.kept .real = bound.kept .real := by
  rcases bind_number hform hkept with rfl | ⟨x, hx, -, rfl⟩
  · obtain rfl := Value.eq_null_of_same hsame
    cases hform'
    cases hbound
    rfl
  · change (Value.float x.unsignedZero).same v = true at hsame
    -- What is given is a number that equals the one that is held.
    have hnumber {y : Double} (hy : y.unsignedZero = x.unsignedZero.unsignedZero)
        (hform : form' = .float y) : bound'.kept .real = (Cell.real x).kept .real := by
      rw [unsignedZero_idem] at hy
      have hreal : bound' = .real y := by
        subst hform
        cases y with
        | nan =>
          cases x with
          | nan => exact absurd rfl hx
          | infinite => cases hy
          | finite s m e h => cases m <;> cases hy
        | infinite | finite =>
          cases hbound
          rfl
      rw [hreal]
      exact congrArg Cell.real hy
    rcases Value.same_float_cases hsame with ⟨b, rfl, hb⟩ | ⟨n, rfl, hn⟩ | ⟨y, rfl, hy⟩
    · exact hnumber (Double.unsignedZero_ofInt hb) (Except.ok.inj hform').symm
    · refine hnumber (Double.unsignedZero_ofInt hn) ?_
      unfold encodeNumber at hform'
      dsimp only at hform'
      split at hform'
      · cases hform'
      · exact (Except.ok.inj hform').symm
    · exact hnumber (Double.unsignedZero_eq_of_compare hy).symm (Except.ok.inj hform').symm

/-- What a column of truths keeps of a value is nothing, or stands for the truth that the value is
equal to. -/
theorem kept_boolean (hform : encodeBoolean v = .ok form) (hbound : Cell.bind form = .ok bound) :
    v = .null ∧ bound.kept .numeric = .null ∨
      ∃ b : Bool, bound.kept .numeric = .integer b.toInt ∧ (Value.bool b).same v = true := by
  obtain rfl := encodeBoolean_ok hform
  cases form with
  | null =>
    cases hbound
    exact .inl ⟨rfl, rfl⟩
  | bool b =>
    cases hbound
    exact .inr ⟨b, rfl, by cases b <;> decide⟩
  | int n =>
    unfold encodeBoolean at hform
    dsimp only at hform
    split at hform
    · rename_i hn
      rcases hn with rfl | rfl
      · cases hbound
        exact .inr ⟨false, rfl, by decide⟩
      · cases hbound
        exact .inr ⟨true, rfl, by decide⟩
    · cases hform
  | float x =>
    have hreal {b : Bool} (hx : x.compareInt? b.toInt = some .eq) :
        bound.kept .numeric = .integer b.toInt ∧ (Value.bool b).same (.float x) = true := by
      have hbound : bound = .real x := by cases x <;> cases hbound <;> first | rfl | cases hx
      subst hbound
      refine ⟨?_, ?_⟩
      · change Cell.ofDouble x = _
        rw [Cell.ofDouble_of_compareInt hx]
        cases b <;> rfl
      · change ((x.compareInt? b.toInt).map Ordering.swap == some .eq) = true
        rw [hx]
        rfl
    unfold encodeBoolean at hform
    dsimp only at hform
    split at hform
    · rename_i hx
      rcases hx with hx | hx
      · exact .inr ⟨false, hreal hx⟩
      · exact .inr ⟨true, hreal hx⟩
    · cases hform
  | _ => cases hform

theorem bool_of_same {b b' : Bool} (h : (Value.bool b).same v = true)
    (h' : (Value.bool b').same v = true) : b' = b := by
  have hinj : b'.toInt = b.toInt → b' = b := by cases b <;> cases b' <;> decide
  cases v with
  | bool c => exact hinj ((Value.eq_of_compare h').trans (Value.eq_of_compare h).symm)
  | int n => exact hinj ((Value.eq_of_compare h').trans (Value.eq_of_compare h).symm)
  | float y =>
    have hequals {b : Bool} (h : (Value.bool b).same (.float y) = true) :
        y.compareInt? b.toInt = some .eq := by
      rcases Value.same_bool_cases h with hv | hv | ⟨y', hv, hy⟩
      · cases hv
      · cases hv
      · cases hv
        exact hy
    exact hinj (Double.eq_of_compareInt? (hequals h') (hequals h))
  | _ => cases b <;> cases h

/-- A column of truths. -/
theorem unchanged_bool (hform : encodeBoolean w = .ok form) (hkept : Cell.bind form = .ok bound)
    {form' : Value} (hform' : encodeBoolean v = .ok form') (hbound : Cell.bind form' = .ok bound')
    (hsame : ((bound.kept .numeric).decode .bool).same v = true) :
    bound'.kept .numeric = bound.kept .numeric := by
  rcases kept_boolean hform hkept with ⟨-, hcell⟩ | ⟨b, hcell, -⟩ <;> rw [hcell] at hsame ⊢
  · obtain rfl := Value.eq_null_of_same hsame
    cases hform'
    cases hbound
    rfl
  · have hsame : (Value.bool b).same v = true := by cases b <;> exact hsame
    rcases kept_boolean hform' hbound with ⟨rfl, -⟩ | ⟨b', hcell', hsame'⟩
    · cases b <;> cases hsame
    · rw [hcell', bool_of_same hsame hsame']

/-- A column of days. -/
theorem unchanged_date (hform : encodeDate w = .ok form) (hkept : Cell.bind form = .ok bound)
    {form' : Value} (hform' : encodeDate v = .ok form') (hbound : Cell.bind form' = .ok bound')
    (hsame : ((bound.kept .numeric).decode .date).same v = true) :
    bound'.kept .numeric = bound.kept .numeric := by
  have hdate {d : Calendar.Date} (hcell : bound.kept .numeric = .text d.text) :
      bound'.kept .numeric = bound.kept .numeric := by
    rw [hcell] at hsame ⊢
    have hread : (Cell.text d.text).decode .date = .date d := by
      unfold Cell.decode
      dsimp only
      rw [d.readDate?_text]
      rfl
    rw [hread] at hsame
    obtain rfl := Value.eq_date_of_same hsame
    cases hform'
    cases hbound
    exact Cell.kept_text (Cell.number?_date d)
  cases w with
  | null =>
    cases hform
    cases hkept
    obtain rfl := Value.eq_null_of_same hsame
    cases hform'
    cases hbound
    rfl
  | date d =>
    cases hform
    cases hkept
    exact hdate (Cell.kept_text (Cell.number?_date d))
  | moment m =>
    cases hform
    cases hkept
    exact hdate (Cell.kept_text (Cell.number?_date m.date))
  | _ => cases hform

/-- A column of moments, which have no offset. -/
theorem unchanged_moment (hform : encodeMoment w = .ok form) (hkept : Cell.bind form = .ok bound)
    {form' : Value} (hform' : encodeMoment v = .ok form') (hbound : Cell.bind form' = .ok bound')
    (hsame : ((bound.kept .numeric).decode .moment).same v = true) :
    bound'.kept .numeric = bound.kept .numeric := by
  have hmoment {m : Calendar.Moment} (hnaive : m.offset = none)
      (hcell : bound.kept .numeric = .text m.stored) :
      bound'.kept .numeric = bound.kept .numeric := by
    rw [hcell] at hsame ⊢
    have hread : (Cell.text m.stored).decode .moment = .moment m := by
      unfold Cell.decode
      dsimp only
      rw [Calendar.Moment.readMoment?_stored hnaive]
      rfl
    rw [hread] at hsame
    obtain ⟨m', rfl, hsame⟩ := Value.moment_of_same hsame
    obtain rfl := Calendar.Moment.eq_of_same hnaive hsame
    cases hform'
    cases hbound
    exact Cell.kept_text (Cell.number?_of_colon m.colon_mem_stored)
  cases w with
  | null =>
    cases hform
    cases hkept
    obtain rfl := Value.eq_null_of_same hsame
    cases hform'
    cases hbound
    rfl
  | date d =>
    cases hform
    cases hkept
    exact hmoment (m := .ofDate d) rfl
      (Cell.kept_text (Cell.number?_of_colon (Calendar.Moment.ofDate d).colon_mem_stored))
  | moment m =>
    cases hform
    cases hkept
    -- The offset is not kept.
    exact hmoment (m := { m with offset := none }) rfl
      (Cell.kept_text (Cell.number?_of_colon m.colon_mem_stored))
  | _ => cases hform

end Kinds

theorem Column.Keeps.exists_bound {c : Column} {v : Value} {cell : Cell} (h : c.Keeps v cell) :
    ∃ form bound, c.kind.codec.encode v = .ok form ∧ Cell.bind form = .ok bound ∧
      cell = bound.kept c.kind.affinity := by
  obtain ⟨bound, hbound, hcell⟩ := h
  obtain ⟨form, hform, hbound⟩ := Parameter.cell_ok.1 hbound
  exact ⟨form, bound, mapError_eq_ok.1 hform, mapError_eq_ok.1 hbound, hcell⟩

/-- A column that holds something it keeps of a value keeps the same of every value that this is
equal to, but for the least integer. -/
theorem Column.Keeps.eq_of_same {c : Column} {w v : Value} {cell cell' : Cell}
    (hw : c.Keeps w cell) (hv : c.Keeps v cell') (hsame : (cell.decode c.kind).same v = true) :
    cell' = cell ∨ c.kind = .int ∧ cell.IsLeast ∧ cell'.IsLeast := by
  obtain ⟨form, bound, hform, hkept, rfl⟩ := hw.exists_bound
  obtain ⟨form', bound', hform', hbound, rfl⟩ := hv.exists_bound
  generalize c.kind = k at *
  cases k with
  | text =>
    cases hform'
    exact .inl (unchanged_text (.inl rfl) hbound hsame)
  | untyped =>
    cases hform'
    exact .inl (unchanged_text (.inr rfl) hbound hsame)
  | int =>
    cases hform
    cases hform'
    exact (unchanged_int hkept hbound hsame).imp_right fun h => ⟨rfl, h⟩
  | float => exact .inl (unchanged_float hform hkept hform' hbound hsame)
  | bool => exact .inl (unchanged_bool hform hkept hform' hbound hsame)
  | date => exact .inl (unchanged_date hform hkept hform' hbound hsame)
  | moment => exact .inl (unchanged_moment hform hkept hform' hbound hsame)


end Records
