import Records.Library.Catalogue
import Records.Library.Resources
import Records.Proofs.Listing.Run
import Records.Proofs.Store.Order

/-!
The conditions of a resource narrow every listing of it, whatever the parameters are: a listing
yields what it would without them, less the records that do not satisfy them.
-/
namespace Records

open Records.Filter (Predicate)
open Records.Filter.Predicate (allHold)
open Records.Listing (Page Params)

/-- The row of a record satisfies some conditions. -/
def Store.meets (st : Store) (m : Model) (ps : List Predicate) : Ref → Bool
  | .stored _ id => ((st.table m.table).find? id).elim false fun row => allHold st row ps
  | .draft _ => false

namespace Resource

/-- The resource with no conditions of its own. -/
def unscoped (r : Resource) : Resource := { r with scope := [] }

theorem meets_refOf {r : Resource} {st : Store} {row : Row} (h : row ∈ st.rows r.model)
    (ps : List Predicate) : st.meets r.model ps (r.refOf row) = allHold st row ps := by
  unfold Store.meets refOf
  dsimp only
  rw [Table.find?_of_mem h]
  rfl

theorem rows_listingQuery (r : Resource) (p : Params) (ps : List Predicate) (withTrashed : Bool)
    (st : Store) : (r.listingQuery p ps withTrashed).rows st =
      ((r.unscoped.listingQuery p ps withTrashed).rows st).filter
        fun row => allHold st row r.scope := by
  change Query.sorted _ _ = (Query.sorted _ _).filter _
  rw [Query.filter_sorted]
  congr 1
  -- The conditions are taken out of the conjunction that selects the rows.
  unfold Query.matching
  rw [List.filter_filter]
  refine List.filter_congr fun row _ => ?_
  simp only [listingQuery, unscoped, Query.when, Predicate.allHold_append, List.nil_append]
  cases allHold st row (Query.base r.model withTrashed).conditions <;> simp

theorem mem_rows_listingQuery {r : Resource} {p : Params} {ps : List Predicate}
    {withTrashed : Bool} {st : Store} {row : Row}
    (h : row ∈ (r.listingQuery p ps withTrashed).rows st) :
    row ∈ st.rows r.model ∧ allHold st row r.scope := by
  have hrow := Query.of_mem_rows h
  refine ⟨hrow.1, ?_⟩
  have hall := hrow.2
  rw [listingQuery] at hall
  simp only [Query.when, Predicate.allHold_append, Bool.and_eq_true] at hall
  exact hall.2.1

theorem compareInt_zero_of_one {x : Number.Double} (h : (x.compareInt? 1).getD .lt = .eq) :
    x.compareInt? 0 ≠ some .eq := by
  intro hzero
  have hone := Number.Double.compares_compareInt x 1
  have hkey := Number.Double.compares_compareInt x 0
  rw [h] at hone
  rw [hzero] at hkey
  have hsame : toLex ((2 : ℤ), ((1 : ℤ) : ℚ)) = toLex ((2 : ℤ), ((0 : ℤ) : ℚ)) :=
    hone.symm.trans hkey
  simp at hsame

theorem compareHolds_iff {f : Filter.Field} {op : Filter.Comparison} {p : Parameter} {row : Row} :
    Predicate.compareHolds f op p row = true ↔
      ∃ o, Cell.compare? (row.cell f.column.name) (Filter.comparedCell f p) = some o ∧
        op.accepts o = true := by
  unfold Predicate.compareHolds
  cases Cell.compare? (row.cell f.column.name) (Filter.comparedCell f p) <;> simp

/-- A boolean column that equals true in a condition reads as true. -/
theorem value_of_compare_true {st : Store} {row : Row} {table : String} {c : Column}
    (hc : c.kind = .bool)
    (h : Predicate.holds st row (.compare ⟨table, c⟩ .eq (.bool true))) :
    row.value c = .bool true := by
  rw [Predicate.holds] at h
  obtain ⟨o, ho, haccepts⟩ := compareHolds_iff.1 h
  obtain rfl : o = .eq := by simpa [Filter.Comparison.accepts] using haccepts
  simp only [Filter.comparedCell, Filter.comparisonParameter, hc] at ho
  have hone : Cell.compare? (row.cell c.name) (.integer 1) = some .eq := ho
  unfold Row.value
  rw [hc]
  cases hcell : row.cell c.name with
  | null => simp [hcell, Cell.compare?] at hone
  | integer n =>
    rw [hcell] at hone
    have hn : compare n 1 = .eq := by simpa [Cell.compare?, Cell.order] using hone
    rw [Int.compare_eq_eq.1 hn]
    rfl
  | real x =>
    rw [hcell] at hone
    have hx : (x.compareInt? 1).getD .lt = .eq := by
      simpa [Cell.compare?, Cell.order] using hone
    simpa [Cell.decode] using compareInt_zero_of_one hx
  | text s =>
    rw [hcell] at hone
    cases hone
  | blob b =>
    rw [hcell] at hone
    cases hone

/-- An author of a store who is active. -/
def IsActiveAuthor (st : Store) (ref : Ref) : Prop :=
  ∃ row ∈ st.rows Library.author, ref = .stored Library.author.name row.id ∧
    row.value Library.activeColumn = .bool true

theorem isActiveAuthor_of_mem_rows {p : Params} {ps : List Predicate} {withTrashed : Bool}
    {st : Store} {row : Row}
    (h : row ∈ (Library.activeAuthors.listingQuery p ps withTrashed).rows st) :
    IsActiveAuthor st (Library.activeAuthors.refOf row) := by
  obtain ⟨hrow, hscope⟩ := mem_rows_listingQuery h
  have hactive : Predicate.holds st row
      (.compare ⟨Library.author.table, Library.activeColumn⟩ .eq (.bool true)) := by
    simpa [Predicate.allHold_eq_all, Library.activeAuthors] using hscope
  exact ⟨row, hrow, rfl, value_of_compare_true rfl hactive⟩

theorem listAll_narrowed {r : Resource} {params relations relations' : Value} {withTrashed : Bool}
    {se se' : Session} {all refs : List Ref} (hstore : se'.store = se.store)
    (hall : (r.unscoped.listAll params relations withTrashed se).result = .ok all)
    (hrefs : (r.listAll params relations' withTrashed se').result = .ok refs) :
    refs = all.filter (se.store.meets r.model r.scope) := by
  obtain ⟨p, ps, -, hp, -, hps, -, -, rfl⟩ := result_listAll_ok.1 hrefs
  obtain ⟨p', ps', -, hp', -, hps', -, -, rfl⟩ := result_listAll_ok.1 hall
  -- The same parameters are read, and the same filter is compiled, apart from the conditions.
  obtain rfl : p = p' := Except.ok.inj (hp.symm.trans hp')
  obtain rfl : ps = ps' := Except.ok.inj (hps.symm.trans hps')
  rw [hstore, rows_listingQuery, List.filter_map]
  congr 1
  refine List.filter_congr fun row hrow => ?_
  exact (meets_refOf (mem_rows_listingQuery hrow).1 r.scope).symm

theorem total_listPage {r : Resource} {params relations relations' : Value} {withTrashed : Bool}
    {se se' : Session} {refs : List Ref} {page : Page Ref} (hstore : se'.store = se.store)
    (hrefs : (r.listAll params relations withTrashed se).result = .ok refs)
    (hpage : (r.listPage params relations' withTrashed se').result = .ok page) :
    page.total = refs.length := by
  obtain ⟨p, ps, -, hp, -, hps, -, -, rfl⟩ := result_listAll_ok.1 hrefs
  obtain ⟨p', ps', hp', hps', htotal, -⟩ := result_listPage_ok hpage
  obtain rfl : p = p' := Except.ok.inj (hp.symm.trans hp')
  obtain rfl : ps = ps' := Except.ok.inj (hps.symm.trans hps')
  rw [htotal, hstore, List.length_map]
  exact congrArg Int.ofNat (Query.length_sorted ..).symm

theorem listAll_activeAuthors {params relations : Value} {withTrashed : Bool} {se : Session}
    {refs : List Ref}
    (h : (Library.activeAuthors.listAll params relations withTrashed se).result = .ok refs)
    {ref : Ref} (href : ref ∈ refs) : IsActiveAuthor se.store ref := by
  obtain ⟨p, ps, -, -, -, -, -, -, rfl⟩ := result_listAll_ok.1 h
  obtain ⟨row, hrow, rfl⟩ := List.mem_map.1 href
  exact isActiveAuthor_of_mem_rows hrow

theorem listPage_activeAuthors {params relations : Value} {withTrashed : Bool} {se : Session}
    {page : Page Ref}
    (h : (Library.activeAuthors.listPage params relations withTrashed se).result = .ok page)
    {ref : Ref} (href : ref ∈ page.items) : IsActiveAuthor se.store ref := by
  obtain ⟨p, ps, -, -, -, window, hitems⟩ := result_listPage_ok h
  rw [hitems] at href
  obtain ⟨row, hrow, rfl⟩ := List.mem_map.1 href
  exact isActiveAuthor_of_mem_rows (Query.mem_of_mem_windowed hrow)

/-- A filter that every author satisfies. -/
def wideParams : Value := .object [("filter", .object [("or", .object [
  ("greater", .object [("id", .int 0)]),
  ("relation", .object [("books", .object [("like", .object [("title", .text "e")])])])])])]

end Resource

end Records
