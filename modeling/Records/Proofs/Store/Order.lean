import Mathlib.Algebra.Order.Ring.Cast
import Mathlib.Algebra.Order.Ring.Rat
import Mathlib.Data.List.Lex
import Mathlib.Data.Prod.Lex
import Mathlib.Data.String.Basic
import Mathlib.Data.Sum.Order
import Mathlib.Order.Compare
import Mathlib.Order.CompleteBooleanAlgebra
import Mathlib.Order.CompletePartialOrder
import Mathlib.Tactic.Ring
import Records.Query

/-!
Cells are ordered as their keys are, and keys have a linear order. So rows can be sorted before or
after some are left out.
-/
namespace Records

open Records.Filter (Predicate)
open Records.Number (Double)

namespace Number.Double

/-- The place of a number: below all others, infinite on either side, or finite. -/
def key : Double → ℤ ×ₗ ℚ
  | .nan => toLex (0, 0)
  | .infinite true => toLex (1, 0)
  | .infinite false => toLex (3, 0)
  | x => toLex (2, (x.quotient?.map fun q => (q.1 : ℚ) / q.2).getD 0)

theorem exists_quotient {s : Bool} {m : Nat} {e : Int} (h : Canonical m e) :
    ∃ q : Int × Nat, 0 < q.2 ∧ (Double.finite s m e h).quotient? = some q := by
  cases e with
  | ofNat k => exact ⟨_, Nat.one_pos, rfl⟩
  | negSucc k => exact ⟨_, Nat.pow_pos (by decide), rfl⟩

theorem compares_quotients {a b : Int × Nat} (ha : 0 < a.2) (hb : 0 < b.2) :
    (compareQuotients a b).Compares ((a.1 : ℚ) / a.2) ((b.1 : ℚ) / b.2) := by
  have ha' : (0 : ℚ) < a.2 := by exact_mod_cast ha
  have hb' : (0 : ℚ) < b.2 := by exact_mod_cast hb
  unfold compareQuotients
  cases h : compare (a.1 * (b.2 : ℤ)) (b.1 * a.2) with
  | lt =>
    have hlt := Int.compare_eq_lt.1 h
    change (a.1 : ℚ) / a.2 < b.1 / b.2
    rw [div_lt_div_iff₀ ha' hb']
    exact_mod_cast hlt
  | eq =>
    have heq := Int.compare_eq_eq.1 h
    change (a.1 : ℚ) / a.2 = b.1 / b.2
    rw [div_eq_div_iff ha'.ne' hb'.ne']
    exact_mod_cast heq
  | gt =>
    have hgt := Int.compare_eq_gt.1 h
    change (b.1 : ℚ) / b.2 < a.1 / a.2
    rw [div_lt_div_iff₀ hb' ha']
    exact_mod_cast hgt

theorem key_of_quotient {x : Double} {q : Int × Nat} (h : x.quotient? = some q) :
    x.key = toLex (2, (q.1 : ℚ) / q.2) := by
  cases x with
  | nan => simp [quotient?] at h
  | infinite s => simp [quotient?] at h
  | finite s m e hc => simp [key, h]

theorem key_finite (s : Bool) {m : Nat} {e : Int} (h : Canonical m e) :
    ∃ q : Int × Nat, 0 < q.2 ∧ (Double.finite s m e h).quotient? = some q ∧
      (Double.finite s m e h).key = toLex (2, (q.1 : ℚ) / q.2) := by
  obtain ⟨q, hq, hx⟩ := exists_quotient (s := s) h
  exact ⟨q, hq, hx, key_of_quotient hx⟩

theorem toLex_lt_of_fst {i j : ℤ} (h : i < j) (a b : ℚ) : toLex (i, a) < toLex (j, b) :=
  Prod.Lex.toLex_lt_toLex.2 (.inl h)

theorem compares_toLex {o : Ordering} {a b : ℚ} (h : o.Compares a b) (i : ℤ) :
    o.Compares (toLex (i, a)) (toLex (i, b)) := by
  cases o with
  | lt => exact Prod.Lex.toLex_lt_toLex.2 (.inr ⟨rfl, h⟩)
  | eq => exact congrArg (fun x : ℚ => toLex (i, x)) h
  | gt => exact Prod.Lex.toLex_lt_toLex.2 (.inr ⟨rfl, h⟩)

theorem compares_orderNumbers (x y : Double) :
    (Cell.orderNumbers x y).Compares x.key y.key := by
  match x, y with
  | .nan, .nan => rfl
  | .nan, .infinite true => exact toLex_lt_of_fst (by decide) _ _
  | .nan, .infinite false => exact toLex_lt_of_fst (by decide) _ _
  | .infinite true, .nan => exact toLex_lt_of_fst (by decide) _ _
  | .infinite false, .nan => exact toLex_lt_of_fst (by decide) _ _
  | .infinite true, .infinite true => rfl
  | .infinite true, .infinite false => exact toLex_lt_of_fst (by decide) _ _
  | .infinite false, .infinite true => exact toLex_lt_of_fst (by decide) _ _
  | .infinite false, .infinite false => rfl
  | .nan, .finite s m e h => exact toLex_lt_of_fst (by decide) _ _
  | .finite s m e h, .nan => exact toLex_lt_of_fst (by decide) _ _
  | .infinite true, .finite s m e h => exact toLex_lt_of_fst (by decide) _ _
  | .infinite false, .finite s m e h => exact toLex_lt_of_fst (by decide) _ _
  | .finite s m e h, .infinite true => exact toLex_lt_of_fst (by decide) _ _
  | .finite s m e h, .infinite false => exact toLex_lt_of_fst (by decide) _ _
  | .finite s m e h, .finite t n f h' =>
    obtain ⟨p, hp, hx, hkx⟩ := key_finite s h
    obtain ⟨q, hq, hy, hky⟩ := key_finite t h'
    have ho : Cell.orderNumbers (.finite s m e h) (.finite t n f h') = compareQuotients p q := by
      simp [Cell.orderNumbers, compare?, hx, hy]
    rw [ho, hkx, hky]
    exact compares_toLex (compares_quotients hp hq) 2

theorem compares_compareInt (x : Double) (n : Int) :
    ((x.compareInt? n).getD .lt).Compares x.key (toLex (2, (n : ℚ))) := by
  match x with
  | .nan => exact toLex_lt_of_fst (by decide) _ _
  | .infinite true => exact toLex_lt_of_fst (by decide) _ _
  | .infinite false => exact toLex_lt_of_fst (by decide) _ _
  | .finite s m e h =>
    obtain ⟨q, hq, hx, hk⟩ := key_finite s h
    have ho : (Double.finite s m e h).compareInt? n = some (compareQuotients q (n, 1)) := by
      simp [compareInt?, hx]
    rw [ho, hk]
    have hc := compares_quotients hq (b := (n, 1)) Nat.one_pos
    simp only [Nat.cast_one, div_one] at hc
    exact compares_toLex hc 2

end Number.Double

namespace Cell

/-- Nulls, numbers, texts and blobs, one after another. -/
abbrev Key : Type := Unit ⊕ₗ (ℤ ×ₗ ℚ) ⊕ₗ String ⊕ₗ List ℕ

def key : Cell → Key
  | null => Sum.inlₗ ()
  | integer n => Sum.inrₗ (Sum.inlₗ (toLex (2, (n : ℚ))))
  | real x => Sum.inrₗ (Sum.inlₗ x.key)
  | text s => Sum.inrₗ (Sum.inrₗ (Sum.inlₗ s))
  | blob b => Sum.inrₗ (Sum.inrₗ (Sum.inrₗ (b.map UInt8.toNat)))

section Sums
variable {α β : Type} [LT α] [LT β] {o : Ordering}

theorem compares_inl {a b : α} (h : o.Compares a b) :
    o.Compares (Sum.inlₗ a : α ⊕ₗ β) (Sum.inlₗ b) := by
  cases o with
  | lt => exact Sum.Lex.inl_lt_inl_iff.2 h
  | eq => exact congrArg Sum.inlₗ h
  | gt => exact Sum.Lex.inl_lt_inl_iff.2 h

theorem compares_inr {a b : β} (h : o.Compares a b) :
    o.Compares (Sum.inrₗ a : α ⊕ₗ β) (Sum.inrₗ b) := by
  cases o with
  | lt => exact Sum.Lex.inr_lt_inr_iff.2 h
  | eq => exact congrArg Sum.inrₗ h
  | gt => exact Sum.Lex.inr_lt_inr_iff.2 h

end Sums

theorem compares_orderTexts (a b : String) : (orderTexts a b).Compares a b := by
  unfold orderTexts
  split
  · assumption
  · split
    · assumption
    · exact lt_of_le_of_ne (not_lt.1 ‹_›) (Ne.symm ‹_›)

theorem compares_cons {o : Ordering} {as bs : List ℕ} (n : ℕ) (h : o.Compares as bs) :
    o.Compares (n :: as) (n :: bs) := by
  cases o with
  | lt => exact List.cons_lt_cons_iff.2 (.inr ⟨rfl, h⟩)
  | eq => exact congrArg (n :: ·) h
  | gt => exact List.cons_lt_cons_iff.2 (.inr ⟨rfl, h⟩)

theorem compares_orderBytes (a b : List UInt8) :
    (orderBytes a b).Compares (a.map UInt8.toNat) (b.map UInt8.toNat) := by
  induction a generalizing b with
  | nil =>
    cases b with
    | nil => rfl
    | cons b bs => exact List.nil_lt_cons _ _
  | cons a as ih =>
    cases b with
    | nil => exact List.nil_lt_cons _ _
    | cons b bs =>
      simp only [orderBytes, List.map_cons]
      split
      · exact List.cons_lt_cons_iff.2 (.inl (UInt8.lt_iff_toNat_lt.1 ‹_›))
      · split
        · exact List.cons_lt_cons_iff.2 (.inl (UInt8.lt_iff_toNat_lt.1 ‹_›))
        · have hab : a = b := UInt8.le_antisymm (UInt8.not_lt.1 ‹_›) (UInt8.not_lt.1 ‹_›)
          rw [hab]
          exact compares_cons _ (ih bs)

theorem compares_cast (a b : ℤ) : (compare a b).Compares (a : ℚ) b := by
  cases h : compare a b with
  | lt => exact Int.cast_lt.2 (Int.compare_eq_lt.1 h)
  | eq => exact congrArg Int.cast (Int.compare_eq_eq.1 h)
  | gt => exact Int.cast_lt.2 (Int.compare_eq_gt.1 h)

theorem compares_order (a b : Cell) : (order a b).Compares a.key b.key := by
  -- Cells of different kinds are ordered by their kinds, whatever they hold.
  cases a with
  | null =>
    cases b with
    | null => rfl
    | _ => exact Sum.Lex.inl_lt_inr _ _
  | integer n =>
    cases b with
    | null => exact Sum.Lex.inl_lt_inr _ _
    | integer k => exact compares_inr (compares_inl (Double.compares_toLex (compares_cast n k) 2))
    | real y =>
      have hy := Double.compares_compareInt y n
      have ho : order (.integer n) (.real y) = ((y.compareInt? n).getD .lt).swap := by
        cases h : y.compareInt? n <;> simp [order, h]
      rw [ho]
      exact compares_inr (compares_inl (Ordering.compares_swap.2 hy))
    | text s => exact compares_inr (o := .lt) (Sum.Lex.inl_lt_inr _ _)
    | blob y => exact compares_inr (o := .lt) (Sum.Lex.inl_lt_inr _ _)
  | real x =>
    cases b with
    | null => exact Sum.Lex.inl_lt_inr _ _
    | integer k => exact compares_inr (compares_inl (Double.compares_compareInt x k))
    | real y => exact compares_inr (compares_inl (Double.compares_orderNumbers x y))
    | text s => exact compares_inr (o := .lt) (Sum.Lex.inl_lt_inr _ _)
    | blob y => exact compares_inr (o := .lt) (Sum.Lex.inl_lt_inr _ _)
  | text s =>
    cases b with
    | null => exact Sum.Lex.inl_lt_inr _ _
    | text s' => exact compares_inr (compares_inr (compares_inl (compares_orderTexts s s')))
    | blob y => exact compares_inr (o := .lt) (compares_inr (o := .lt) (Sum.Lex.inl_lt_inr _ _))
    | _ => exact compares_inr (o := .gt) (Sum.Lex.inl_lt_inr _ _)
  | blob x =>
    cases b with
    | null => exact Sum.Lex.inl_lt_inr _ _
    | text s => exact compares_inr (o := .gt) (compares_inr (o := .gt) (Sum.Lex.inl_lt_inr _ _))
    | blob y => exact compares_inr (compares_inr (compares_inr (compares_orderBytes x y)))
    | _ => exact compares_inr (o := .gt) (Sum.Lex.inl_lt_inr _ _)

end Cell

namespace Query

theorem inOrder_iff (c : Column) (d : Direction) (a b : Row) : inOrder c d a b ↔
    match d with
    | .ascending => (a.cell c.name).key ≤ (b.cell c.name).key
    | .descending => (b.cell c.name).key ≤ (a.cell c.name).key := by
  have h := Cell.compares_order (a.cell c.name) (b.cell c.name)
  cases d with
  | ascending => simpa only [inOrder, bne_iff_ne] using h.ne_gt
  | descending => simpa only [inOrder, bne_iff_ne] using h.ne_lt

theorem inOrder_trans (c : Column) (d : Direction) (x y z : Row) (hxy : inOrder c d x y)
    (hyz : inOrder c d y z) : inOrder c d x z := by
  rw [inOrder_iff] at *
  cases d with
  | ascending => exact le_trans hxy hyz
  | descending => exact le_trans hyz hxy

theorem inOrder_total (c : Column) (d : Direction) (x y : Row) :
    (inOrder c d x y || inOrder c d y x) = true := by
  rw [Bool.or_eq_true, inOrder_iff, inOrder_iff]
  cases d with
  | ascending => exact le_total _ _
  | descending => exact le_total _ _

end Query

section Sorting
variable {α : Type} {le : α → α → Bool} (htrans : ∀ a b c, le a b → le b c → le a c)
  (htotal : ∀ a b, (le a b || le b a) = true)
include htrans htotal

/-- Sorting puts the first item before those that may come after it, and behind the others. -/
theorem mergeSort_cons_eq (a : α) (xs : List α) :
    (a :: xs).mergeSort le = (xs.mergeSort le).filter (fun b => !le a b) ++
      a :: (xs.mergeSort le).filter (le a) := by
  obtain ⟨before, after, hcons, hxs, hbefore⟩ := List.mergeSort_cons htrans htotal a xs
  have hsorted := List.pairwise_mergeSort htrans htotal (a :: xs)
  rw [hcons, List.pairwise_append, List.pairwise_cons] at hsorted
  have hafter : ∀ b ∈ after, le a b := hsorted.2.1.1
  rw [hcons, hxs, List.filter_append, List.filter_append, List.filter_eq_self.2 hbefore,
    List.filter_eq_self.2 hafter, List.filter_eq_nil_iff.2 fun b hb => by simp [hafter b hb],
    List.filter_eq_nil_iff.2 fun b hb => by simpa using hbefore b hb, List.append_nil,
    List.nil_append]

/-- A stable sort does not care whether some items are left out before it or after it. -/
theorem filter_mergeSort (p : α → Bool) (xs : List α) :
    (xs.mergeSort le).filter p = (xs.filter p).mergeSort le := by
  induction xs with
  | nil => simp
  | cons a xs ih =>
    -- An item that stays is put in one place in both lists; one that goes was between the others.
    by_cases ha : p a
    · rw [mergeSort_cons_eq htrans htotal, List.filter_append, List.filter_cons_of_pos ha,
        List.filter_cons_of_pos ha, mergeSort_cons_eq htrans htotal, ← ih]
      simp only [List.filter_filter, Bool.and_comm]
    · obtain ⟨before, after, hcons, hxs, -⟩ := List.mergeSort_cons htrans htotal a xs
      rw [hcons, List.filter_append, List.filter_cons_of_neg ha, List.filter_cons_of_neg ha, ← ih,
        hxs, List.filter_append]

end Sorting

namespace Query

theorem mem_sorted {rows : List Row} {sort : Option (Column × Direction)} {row : Row} :
    row ∈ sorted rows sort ↔ row ∈ rows := by
  cases sort with
  | none => rfl
  | some s => exact List.mem_mergeSort

theorem length_sorted (rows : List Row) (sort : Option (Column × Direction)) :
    (sorted rows sort).length = rows.length := by
  cases sort with
  | none => rfl
  | some s => exact List.length_mergeSort _

theorem mem_of_mem_windowed {α : Type} {rows : List α} {window : Option (Int × Int)} {row : α}
    (h : row ∈ windowed rows window) : row ∈ rows := by
  cases window with
  | none => exact h
  | some w => exact List.mem_of_mem_drop (List.mem_of_mem_take h)

/-- A query yields rows of its model for which its conditions hold. -/
theorem of_mem_rows {q : Query} {s : Store} {row : Row} (h : row ∈ q.rows s) :
    row ∈ s.rows q.model ∧ Predicate.allHold s row q.conditions = true :=
  List.mem_filter.1 (mem_sorted.1 (mem_of_mem_windowed h))

theorem filter_sorted (p : Row → Bool) (rows : List Row) (sort : Option (Column × Direction)) :
    (sorted rows sort).filter p = sorted (rows.filter p) sort := by
  cases sort with
  | none => rfl
  | some s => exact filter_mergeSort (inOrder_trans s.1 s.2) (inOrder_total s.1 s.2) p rows

end Query

end Records
