import Records.Proofs.Calendar.ReadBack
import Records.Proofs.Staging.Taken
import Records.Proofs.Store.Comparison

/-!
Values that a column gives back as they were written to it: those of its own kind. Only a zero loses
its sign.
-/
namespace Records

open Records.Number (Double Numeral)
open Records.Text (trimBy asciiDigit? isAsciiBlank)

/-- The value, a zero without its sign. -/
def Value.unsigned : Value → Value
  | .float x => .float x.unsignedZero
  | v => v

/-- The values of a column's own kind. The values of an untyped column are texts. -/
def Kind.admits : Kind → Value → Bool
  | .text, .text _ => true
  | .untyped, .text _ => true
  | .int, .int n => fitsInteger n
  | .float, .float x => x.isFinite
  | .bool, .bool _ => true
  | .date, .date _ => true
  | .moment, .moment m => m.offset.isNone
  | _, _ => false

theorem Kind.ne_null_of_admits {k : Kind} {v : Value} (h : k.admits v = true) : v ≠ .null := by
  rintro rfl
  cases k <;> cases h

section Same

theorem Number.Double.compareQuotients_self (q : Int × Nat) : compareQuotients q q = .eq :=
  Int.compare_eq_eq.2 rfl

theorem Number.Double.compare?_unsignedZero {x : Double} (h : x.isFinite = true) :
    x.unsignedZero.compare? x = some .eq := by
  cases x with
  | nan => cases h
  | infinite s => cases h
  | finite s m e hm =>
    have hself (y : Double) (hy : y = .finite s m e hm) : y.compare? y = some .eq := by
      subst hy
      cases e <;> exact congrArg some (compareQuotients_self _)
    cases m with
    | succ m => exact hself _ rfl
    | zero =>
      -- Both are the quotient of zero, whatever its sign and power are.
      have hzero (q : Int × Nat) (hq : q.1 = 0) (d : Nat) : compareQuotients (0, d) q = .eq := by
        unfold compareQuotients
        rw [hq, Int.zero_mul, Int.zero_mul]
        rfl
      cases e <;> exact congrArg some (hzero _ (by simp) _)

/-- The value without the sign of a zero is equal to the value. -/
theorem Kind.same_unsigned {k : Kind} {v : Value} (h : k.admits v = true) :
    v.unsigned.same v = true := by
  have hint (n : Int) : (Value.int n).same (.int n) = true := by
    have horder : compare n n = .eq := Int.compare_eq_eq.2 rfl
    change (some (compare n n) == some .eq) = true
    rw [horder]
    rfl
  have hmoment (m : Calendar.Moment) : m.same m = true := by simp [Calendar.Moment.same]
  unfold Kind.admits at h
  split at h
  · exact beq_self_eq_true _
  · exact beq_self_eq_true _
  · exact hint _
  · rename_i x
    change (x.unsignedZero.compare? x == some .eq) = true
    rw [Number.Double.compare?_unsignedZero h]
    rfl
  · rename_i b
    exact hint b.toInt
  · exact beq_self_eq_true _
  · exact hmoment _
  · cases h

end Same

section Date

theorem Text.trimBy_eq_self {p : Char → Bool} {cs : List Char} (h : ∀ c ∈ cs, p c = false) :
    trimBy p cs = cs := by
  have hkept {cs : List Char} (h : ∀ c ∈ cs, p c = false) : cs.dropWhile p = cs := by
    cases cs with
    | nil => rfl
    | cons c cs => exact List.dropWhile_cons_of_neg (by simp [h c (List.mem_cons_self ..)])
  unfold trimBy
  rw [hkept h, hkept fun c hc => h c (List.mem_reverse.1 hc), List.reverse_reverse]

/-- Digits are no numeral when a hyphen follows them. -/
theorem Number.Numeral.read?_of_hyphen {ds cs : List Char} (hds : ∀ c ∈ ds, c.isDigit = true)
    (hne : ds ≠ []) : Numeral.read? asciiDigit? (ds ++ '-' :: cs) = none := by
  have hrun : (digitRun asciiDigit? (ds ++ '-' :: cs)).2 = '-' :: cs := by
    clear hne
    induction ds with
    | nil => rfl
    | cons d ds ih =>
      obtain ⟨hd, hds⟩ := List.forall_mem_cons.1 hds
      have hdigit : asciiDigit? d = some (d.toNat - 48) := if_pos hd
      rw [List.cons_append, digitRun, hdigit]
      exact ih hds
  have hsign : takeSign (ds ++ '-' :: cs) = (false, ds ++ '-' :: cs) := by
    cases ds with
    | nil => exact absurd rfl hne
    | cons d ds =>
      have hd := hds d (List.mem_cons_self ..)
      rw [List.cons_append]
      unfold takeSign
      split
      · rename_i heq
        cases heq
        cases hd
      · rename_i heq
        cases heq
        cases hd
      · rfl
  unfold read?
  rw [hsign]
  dsimp only
  rw [hrun]
  simp [takeFraction, readExponent?]

theorem Cell.number?_date (d : Calendar.Date) : number? d.text = none := by
  have hblank : ∀ c ∈ d.text.toList, isAsciiBlank c = false := by
    have hdigit {c : Char} (hc : c.isDigit = true) : isAsciiBlank c = false := by
      simp only [Char.isDigit, Bool.and_eq_true, decide_eq_true_eq] at hc
      have hzero : 48 ≤ c.toNat := hc.1
      unfold isAsciiBlank
      rw [Bool.or_eq_false_iff, beq_eq_false_iff_ne, Bool.and_eq_false_imp]
      refine ⟨?_, fun _ => decide_eq_false (by omega)⟩
      rintro rfl
      exact absurd hzero (by decide)
    intro c hc
    simp only [d.toList_text, List.mem_append, List.mem_cons] at hc
    rcases hc with hc | rfl | hc | rfl | hc
    · exact hdigit (Calendar.isDigit_of_mem_padded hc)
    · rfl
    · exact hdigit (Calendar.isDigit_of_mem_padded hc)
    · rfl
    · exact hdigit (Calendar.isDigit_of_mem_padded hc)
  unfold number?
  rw [Text.trimBy_eq_self hblank, d.toList_text, Number.Numeral.read?_of_hyphen]
  · rfl
  · exact fun c => Calendar.isDigit_of_mem_padded
  · exact Calendar.padded_ne_nil (by decide) d.year_lt

end Date

theorem Cell.compared_text {a : Affinity} {s : String} (h : number? s = none) :
    (Cell.text s).compared a = .text s := by
  unfold compared
  dsimp only
  split
  · rfl
  · rw [h]
    rfl

theorem Cell.kept_text {a : Affinity} {s : String} (h : number? s = none) :
    (Cell.text s).kept a = .text s := by
  unfold kept
  rw [compared_text h]
  cases a <;> rfl

/-- A value that is read is the one that was given: it is equal to it, and the same but for the sign
of a zero. -/
structure Value.ReadsAs (given read : Value) : Prop where
  same : read.same given = true
  eq_unsigned : read = given.unsigned

theorem Kind.readsAs {k : Kind} {v read : Value} (h : k.admits v = true)
    (hread : read = v.unsigned) : v.ReadsAs read := ⟨hread ▸ same_unsigned h, hread⟩

theorem Column.Keeps.decode_eq {c : Column} {v : Value} {cell : Cell} (h : c.Keeps v cell)
    (hv : c.kind.admits v = true) : cell.decode c.kind = v.unsigned := by
  obtain ⟨bound, hbound, rfl⟩ := h
  have hbinds {p : Parameter} (hp : p.cell = .ok bound) (cell : Cell) (h : p.cell = .ok cell) :
      bound = cell := Except.ok.inj (hp.symm.trans h)
  generalize c.kind = k at *
  unfold Kind.admits at hv
  split at hv
  · rw [hbinds hbound (.text _) rfl]
    rfl
  · rw [hbinds hbound (.text _) rfl]
    rfl
  · rename_i n
    have hcell : (Parameter.mk .raw (.int n)).cell = .ok (.integer n) :=
      Parameter.cell_ok.2 ⟨_, rfl, by rw [Cell.bind, if_pos hv]; rfl⟩
    rw [hbinds hbound _ hcell]
    rfl
  · rename_i x
    have hcell : (Parameter.mk .number (.float x)).cell = .ok (.real x) := by
      cases x with
      | nan => cases hv
      | infinite s => cases hv
      | finite s m e hm => rfl
    rw [hbinds hbound _ hcell]
    rfl
  · rename_i b
    rw [hbinds hbound (.integer b.toInt) rfl]
    cases b <;> rfl
  · rename_i d
    rw [hbinds hbound (.text d.text) rfl, Cell.kept_text (Cell.number?_date d)]
    unfold Cell.decode
    dsimp only
    rw [d.readDate?_text]
    rfl
  · rename_i m
    rw [hbinds hbound (.text m.stored) rfl,
      Cell.kept_text (Cell.number?_of_colon m.colon_mem_stored)]
    unfold Cell.decode
    dsimp only
    rw [Calendar.Moment.readMoment?_stored (Option.isNone_iff_eq_none.1 hv)]
    rfl
  · cases hv

/-- A column gives back a value of its own kind. -/
theorem Column.Keeps.readsAs {c : Column} {v : Value} {cell : Cell} (h : c.Keeps v cell)
    (hv : c.kind.admits v = true) : v.ReadsAs (cell.decode c.kind) :=
  Kind.readsAs hv (h.decode_eq hv)

theorem Cell.decode_eq_null {k : Kind} {cell : Cell} : cell.decode k = .null ↔ cell = .null := by
  constructor
  · intro h
    cases cell with
    | null => rfl
    | integer n => simp only [decode] at h; split at h <;> cases h
    | real x => simp only [decode] at h; split at h <;> cases h
    | blob b => cases h
    | text s =>
      cases k with
      | date => cases hd : Calendar.readDate? s <;> simp [decode, hd] at h
      | moment => cases hd : Calendar.readMoment? s <;> simp [decode, hd] at h
      | _ => cases h
  · rintro rfl
    rfl

theorem Value.same_null {v : Value} : v.same .null = true ↔ v = .null := by
  cases v <;> simp [same, numeric?]

end Records
