import Records.Proofs.Store.Binding
import Records.Proofs.Store.Frame
import Records.Value.Equality

/-!
What equals an id in a table. A value that a condition finds equal to an id is kept as a cell that
equals this id when it is written to a column of integers, however it was given: as a number, or as
a text that is read as one.
-/
namespace Records

open Records.Filter (Predicate)
open Records.Text (trimBy)

namespace Number

section Colon
variable {digit : Char → Option Nat} (hdigit : digit ':' = none) {cs : List Char}

theorem colon_mem_takeSign (h : ':' ∈ cs) : ':' ∈ (takeSign cs).2 := by
  unfold takeSign
  split
  · exact (List.mem_cons.1 h).resolve_left (by decide)
  · exact (List.mem_cons.1 h).resolve_left (by decide)
  · exact h

include hdigit

theorem colon_mem_digitRun (h : ':' ∈ cs) : ':' ∈ (digitRun digit cs).2 := by
  induction cs with
  | nil => cases h
  | cons c cs ih =>
    unfold digitRun
    split
    · rename_i d hd
      refine ih ((List.mem_cons.1 h).resolve_left ?_)
      rintro rfl
      rw [hdigit] at hd
      cases hd
    · exact h

namespace Numeral

theorem colon_mem_takeFraction (h : ':' ∈ cs) : ':' ∈ (takeFraction digit cs).2 := by
  unfold takeFraction
  split
  · exact colon_mem_digitRun hdigit ((List.mem_cons.1 h).resolve_left (by decide))
  · exact h

/-- No numeral has a colon in it. -/
theorem read?_of_colon (h : ':' ∈ cs) : read? digit cs = none := by
  have hrest := colon_mem_takeFraction hdigit (colon_mem_digitRun hdigit (colon_mem_takeSign h))
  have hexponent {cs : List Char} (h : ':' ∈ cs) : readExponent? digit cs = none := by
    unfold readExponent?
    split
    · cases h
    · rename_i c cs
      split
      · rename_i he
        have hlater : ':' ∈ cs := by
          refine (List.mem_cons.1 h).resolve_left ?_
          rintro rfl
          exact absurd he (by decide)
        have hleft := colon_mem_digitRun hdigit (colon_mem_takeSign hlater)
        refine if_pos (.inr ?_)
        rw [List.isEmpty_iff]
        exact List.ne_nil_of_mem hleft
      · rfl
  unfold read?
  dsimp only
  rw [hexponent hrest]
  split <;> rfl

end Numeral

end Colon

namespace Double

theorem quotient?_pos {x : Double} {a : Int} {d : Nat} (h : x.quotient? = some (a, d)) : 0 < d := by
  unfold quotient? at h
  split at h
  · cases h
    exact Nat.one_pos
  · cases h
    exact Nat.pow_pos (Nat.succ_pos 1)
  · cases h

theorem quotient?_of_compareInt? {x : Double} {n : Int} (h : x.compareInt? n = some .eq) :
    ∃ d : Nat, 0 < d ∧ x.quotient? = some (n * d, d) := by
  -- Only a finite number compares as equal, and it does so as a quotient.
  have hquotient : ∃ q, x.quotient? = some q ∧ compareQuotients q (n, 1) = .eq := by
    cases x with
    | nan => cases h
    | infinite s => cases s <;> cases h
    | finite s mantissa e hcanonical =>
      obtain ⟨q, hq, ho⟩ := Option.bind_eq_some_iff.1 h
      exact ⟨q, hq, Option.some.inj ho⟩
  obtain ⟨⟨a, d⟩, hq, ho⟩ := hquotient
  have horder : compare (a * (1 : Nat)) (n * d) = .eq := ho
  obtain rfl : a = n * d := by simpa using Int.compare_eq_eq.1 horder
  exact ⟨d, quotient?_pos hq, hq⟩

/-- A number that equals an integer is this one, if it is any. -/
theorem eq_of_integer? {x : Double} {m n : Int} (h : x.compareInt? n = some .eq)
    (hm : x.integer? = some m) : m = n := by
  obtain ⟨d, hd, hq⟩ := quotient?_of_compareInt? h
  unfold integer? at hm
  rw [hq] at hm
  dsimp only at hm
  rw [if_pos (Int.mul_emod_left n d)] at hm
  rw [← Option.some.inj hm]
  exact Int.mul_ediv_cancel n (by omega)

theorem eq_of_compareInt? {x : Double} {m n : Int} (hm : x.compareInt? m = some .eq)
    (hn : x.compareInt? n = some .eq) : m = n := by
  obtain ⟨d, hd, hq⟩ := quotient?_of_compareInt? hm
  obtain ⟨d', -, hq'⟩ := quotient?_of_compareInt? hn
  obtain ⟨hsame, rfl⟩ := Prod.mk.inj (Option.some.inj (hq.symm.trans hq'))
  exact Int.eq_of_mul_eq_mul_right (by omega) hsame

end Double

end Number

theorem Text.mem_trimBy {p : Char → Bool} {c : Char} (hc : p c = false) {cs : List Char}
    (h : c ∈ cs) : c ∈ trimBy p cs := by
  have hdropped {cs : List Char} (h : c ∈ cs) : c ∈ cs.dropWhile p := by
    induction cs with
    | nil => cases h
    | cons a cs ih =>
      rw [List.dropWhile_cons]
      split
      · rename_i ha
        refine ih ((List.mem_cons.1 h).resolve_left ?_)
        rintro rfl
        rw [hc] at ha
        cases ha
      · exact h
  unfold trimBy
  exact List.mem_reverse.2 (hdropped (List.mem_reverse.2 (hdropped h)))

theorem Calendar.Moment.colon_mem_stored (m : Calendar.Moment) : ':' ∈ m.stored.toList := by
  unfold stored TimeOfDay.seconds
  simp

theorem Calendar.Moment.colon_mem_spaced (m : Calendar.Moment) : ':' ∈ m.spaced.toList := by
  unfold spaced textWith TimeOfDay.text TimeOfDay.seconds
  simp

namespace Cell

theorem number?_of_colon {s : String} (h : ':' ∈ s.toList) : number? s = none := by
  unfold number?
  rw [Number.Numeral.read?_of_colon (by decide) (Text.mem_trimBy (by decide) h)]
  rfl

theorem equals_integers {m n : Int} : equals (.integer m) (.integer n) = true ↔ m = n := by
  change (some (compare m n) == some .eq) = true ↔ m = n
  rw [beq_iff_eq, Option.some.injEq]
  exact Int.compare_eq_eq

theorem equals_integer_comm (n : Int) (c : Cell) :
    equals (.integer n) c = equals c (.integer n) := by
  cases c with
  | null => rfl
  | integer m =>
    rw [Bool.eq_iff_iff, equals_integers, equals_integers, eq_comm]
  | real x =>
    change (some (((x.compareInt? n).map Ordering.swap).getD .gt) == some .eq) =
      (some ((x.compareInt? n).getD .lt) == some .eq)
    cases x.compareInt? n with
    | none => rfl
    | some o => cases o <;> rfl
  | text s => rfl
  | blob b => rfl

theorem equals_real {x : Number.Double} {n : Int} :
    equals (.real x) (.integer n) = true ↔ x.compareInt? n = some .eq := by
  change (some ((x.compareInt? n).getD .lt) == some .eq) = true ↔ _
  cases x.compareInt? n <;> simp

/-- A cell that reads as an integer, or as a number that equals it, equals its cell. -/
theorem equals_of_same {cell : Cell} {n : Int} (h : (cell.decode .int).same (.int n) = true) :
    equals cell (.integer n) = true := by
  cases cell with
  | null => cases h
  | integer m =>
    change (some (compare m n) == some .eq) = true at h
    rwa [equals_integers, ← Int.compare_eq_eq, ← Option.some.injEq, ← beq_iff_eq]
  | real x =>
    change (x.compareInt? n == some .eq) = true at h
    exact equals_real.2 (beq_iff_eq.1 h)
  | text s => cases h
  | blob b => cases h

theorem equals_ofDouble {x : Number.Double} {n : Int} (h : equals (.integer n) (.real x) = true) :
    equals (ofDouble x) (.integer n) = true := by
  rw [equals_integer_comm] at h
  unfold ofDouble
  split
  · rename_i m hm
    split
    · exact equals_integers.2 (Number.Double.eq_of_integer? (equals_real.1 h) hm)
    · exact h
  · exact h

theorem equals_unique {c : Cell} {m n : Int} (hm : equals (.integer m) c = true)
    (hn : equals (.integer n) c = true) : m = n := by
  cases c with
  | null => cases hm
  | integer k => exact (equals_integers.1 hm).trans (equals_integers.1 hn).symm
  | real x =>
    rw [equals_integer_comm, equals_real] at hm hn
    exact Number.Double.eq_of_compareInt? hm hn
  | text s => cases hm
  | blob b => cases hm

/-- A cell that equals an integer as a column of integers compares it equals it as it is kept. -/
theorem equals_kept {c : Cell} {n : Int}
    (h : equals (.integer n) (c.compared .integer) = true) :
    equals (c.kept .integer) (.integer n) = true := by
  unfold kept
  generalize c.compared .integer = d at h ⊢
  cases d with
  | real x => exact equals_ofDouble h
  | _ => rwa [equals_integer_comm] at h

theorem bind_int (n : Int) : Cell.bind (.int n) =
    if fitsInteger n then .ok (.integer n) else .error .integerTooLarge := rfl

end Cell

/-- An id that a column of integers is compared with is the cell of that id. -/
theorem holds_compare_int {st : Store} {row : Row} {f : Filter.Field} (hkind : f.column.kind = .int)
    {n : Int} : Predicate.holds st row (.compare f .eq (.int n)) = true ↔
      fitsInteger n = true ∧ Cell.equals (row.cell f.column.name) (.integer n) = true := by
  have hparameter : Filter.comparisonParameter f (.int n) = ⟨.raw, .int n⟩ := by
    unfold Filter.comparisonParameter Codec.ofValue
    rw [hkind]
    rfl
  rw [Predicate.holds, Predicate.compareHolds, hparameter]
  cases hfits : fitsInteger n with
  | false =>
    have hnone : (Parameter.mk .raw (.int n)).cell = .error (.bind .integerTooLarge) := by
      change (Cell.bind (.int n)).mapError StoreError.bind = _
      rw [Cell.bind_int, hfits]
      rfl
    unfold Filter.comparedCell
    rw [hnone]
    refine ⟨fun h => ?_, fun h => Bool.noConfusion h.1⟩
    cases hcell : row.cell f.column.name <;> rw [hcell] at h <;> cases h
  | true =>
    have hcell : (Parameter.mk .raw (.int n)).cell = .ok (.integer n) := by
      change (Cell.bind (.int n)).mapError StoreError.bind = _
      rw [Cell.bind_int, hfits]
      rfl
    have hcompared : Filter.comparedCell f ⟨.raw, .int n⟩ = .integer n := by
      unfold Filter.comparedCell
      rw [hcell, hkind]
      rfl
    rw [hcompared]
    unfold Cell.equals
    cases Cell.compare? (row.cell f.column.name) (.integer n) <;>
      simp [Filter.Comparison.accepts]

theorem Store.eq_of_id {st : Store} {m : Model} {row row' : Row} (h : row ∈ st.rows m)
    (h' : row' ∈ st.rows m) (hid : row'.id = row.id) : row' = row :=
  Option.some.inj ((Table.find?_of_mem h').symm.trans (hid ▸ Table.find?_of_mem h))

/-- An id is compared with what the parameter is bound as. -/
theorem equals_of_holds {st : Store} {row : Row} {model : String} {v : Value}
    (h : Predicate.holds st row (.compare ⟨model, idColumn⟩ .eq v) = true) :
    Cell.equals (.integer row.id) (Filter.comparedCell ⟨model, idColumn⟩
      (Filter.comparisonParameter ⟨model, idColumn⟩ v)) = true := by
  rw [Predicate.holds, Predicate.compareHolds, Row.cell_id] at h
  unfold Cell.equals
  cases ho : Cell.compare? (.integer row.id) (Filter.comparedCell ⟨model, idColumn⟩
      (Filter.comparisonParameter ⟨model, idColumn⟩ v)) with
  | none =>
    rw [ho] at h
    cases h
  | some o =>
    rw [ho] at h
    exact h

theorem id_unique_of_holds {st st' : Store} {row row' : Row} {model : String} {v : Value}
    (h : Predicate.holds st row (.compare ⟨model, idColumn⟩ .eq v) = true)
    (h' : Predicate.holds st' row' (.compare ⟨model, idColumn⟩ .eq v) = true) : row.id = row'.id :=
  Cell.equals_unique (equals_of_holds h) (equals_of_holds h')

/-- What a condition finds equal to the id of a row is kept by a column of integers as this id. -/
theorem equals_kept_of_holds {st : Store} {row : Row} {model : String} {v : Value} {bound : Cell}
    (h : Predicate.holds st row (.compare ⟨model, idColumn⟩ .eq v) = true)
    (hbound : (Parameter.mk .raw v).cell = .ok bound) :
    Cell.equals (bound.kept .integer) (.integer row.id) = true := by
  have hcompared {p : Parameter} (hp : Filter.comparisonParameter ⟨model, idColumn⟩ v = p)
      {cell : Cell} (hcell : p.cell = .ok cell) :
      Cell.equals (.integer row.id) (cell.compared .integer) = true := by
    have hequals := equals_of_holds h
    unfold Filter.comparedCell at hequals
    rwa [hp, hcell] at hequals
  cases v with
  | moment m =>
    -- A moment is compared in the form that tables keep of moments, which is no number.
    have hstored : Cell.equals (.integer row.id) ((Cell.text m.stored).compared .integer) = true :=
      hcompared rfl rfl
    change Cell.equals (.integer row.id)
      ((Cell.number? m.stored).getD (.text m.stored)) = true at hstored
    rw [Cell.number?_of_colon m.colon_mem_stored] at hstored
    cases hstored
  | date d => exact Cell.equals_kept (hcompared rfl hbound)
  | _ => exact Cell.equals_kept (hcompared rfl hbound)

end Records
