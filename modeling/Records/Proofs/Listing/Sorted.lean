import Records.Library.Catalogue
import Records.Library.Resources
import Records.Proofs.Listing.Pages

/-!
The sort of a listing. What is written for it puts the rows in the order of one column, or leaves
them as they are; which rows there are, and how many, does not depend on it.
-/
namespace Records

open Records.Filter (Predicate compileAll)
open Records.Listing

section Ties
variable {α : Type} {le : α → α → Bool} {R : α → α → Prop}
  (htrans : ∀ a b c, le a b → le b c → le a c) (htotal : ∀ a b, (le a b || le b a) = true)
include htrans htotal

/-- Sorting a list keeps its own order between items that are equal. -/
theorem pairwise_mergeSort_ties {xs : List α} (h : xs.Pairwise R) :
    (xs.mergeSort le).Pairwise fun a b => le a b ∧ (le b a → R a b) := by
  induction xs with
  | nil => simp
  | cons a xs ih =>
    obtain ⟨ha, hxs⟩ := List.pairwise_cons.1 h
    have hsorted := ih hxs
    have hflip {x y : α} (hxy : ¬ le x y) : le y x := by
      simpa [hxy] using htotal x y
    rw [mergeSort_cons_eq htrans htotal, List.pairwise_append, List.pairwise_cons]
    refine ⟨hsorted.filter _, ⟨fun c hc => ?_, hsorted.filter _⟩, fun b hb c hc => ?_⟩
    · obtain ⟨hmem, hac⟩ := List.mem_filter.1 hc
      exact ⟨hac, fun _ => ha c (List.mem_mergeSort.1 hmem)⟩
    · -- What stands before the first item is not reached by it, nor by what stands behind it.
      have hab : ¬ le a b := by simpa using (List.mem_filter.1 hb).2
      have hac : le a c := by
        rcases List.mem_cons.1 hc with rfl | hc
        · simpa using htotal c c
        · exact (List.mem_filter.1 hc).2
      exact ⟨htrans b a c (hflip hab) hac, fun hcb => absurd (htrans a c b hac hcb) hab⟩

end Ties

namespace Cell

theorem key_eq_key_null {x : Cell} : x.key ≤ Cell.null.key ↔ x = .null := by
  cases x with
  | null => exact iff_of_true le_rfl rfl
  | _ => exact iff_of_false (not_le_of_gt (Sum.Lex.inl_lt_inr _ _)) nofun

end Cell

/-- One row comes before another where a sort by a column asks for it: the cells of the column
ascend or descend, nulls stand first or last, and ids ascend where the cells are the same. -/
structure Row.Precedes (c : Column) (d : Direction) (a b : Row) : Prop where
  monotone : match d with
    | .ascending => (a.cell c.name).key ≤ (b.cell c.name).key
    | .descending => (b.cell c.name).key ≤ (a.cell c.name).key
  nulls : match d with
    | .ascending => b.cell c.name = .null → a.cell c.name = .null
    | .descending => a.cell c.name = .null → b.cell c.name = .null
  ties : (a.cell c.name).key = (b.cell c.name).key → a.id < b.id

def Direction.word : Direction → String
  | .ascending => "asc"
  | .descending => "desc"

namespace Query

theorem precedes_of_inOrder {c : Column} {d : Direction} {a b : Row} (h : inOrder c d a b)
    (hties : inOrder c d b a → a.id < b.id) : a.Precedes c d b := by
  rw [inOrder_iff] at h hties
  cases d with
  | ascending =>
    exact ⟨h, fun hb => Cell.key_eq_key_null.1 (hb ▸ h), fun heq => hties heq.ge⟩
  | descending =>
    exact ⟨h, fun ha => Cell.key_eq_key_null.1 (ha ▸ h), fun heq => hties heq.le⟩

theorem pairwise_sorted (c : Column) (d : Direction) {rows : List Row}
    (h : rows.Pairwise fun a b => a.id < b.id) :
    (sorted rows (some (c, d))).Pairwise (Row.Precedes c d) :=
  (pairwise_mergeSort_ties (inOrder_trans c d) (inOrder_total c d) h).imp
    fun hab => precedes_of_inOrder hab.1 hab.2

theorem sorted_perm (rows : List Row) (sort : Option (Column × Direction)) :
    (sorted rows sort).Perm rows := by
  cases sort with
  | none => exact .refl rows
  | some s => exact List.mergeSort_perm ..

theorem matching_ascending (q : Query) (st : Store) :
    (q.matching st).Pairwise fun a b => a.id < b.id :=
  (st.table q.model.table).ascending.filter _

end Query

namespace Listing

theorem barParts_eq_splitOn (cs : List Char) : barParts cs = cs.splitOn '|' := by
  induction cs with
  | nil => rfl
  | cons c cs ih =>
    rw [barParts, List.splitOn_cons_eq_if_modifyHead, ih]
    obtain ⟨part, parts, h⟩ := List.exists_cons_of_ne_nil (List.splitOn_ne_nil '|' cs)
    rw [h]
    by_cases hc : c = '|' <;> simp [hc]

theorem length_barParts (cs : List Char) : (barParts cs).length = cs.count '|' + 1 := by
  induction cs with
  | nil => rfl
  | cons c cs ih =>
    rw [barParts_eq_splitOn, List.splitOn_cons_eq_if_modifyHead, ← barParts_eq_splitOn]
    by_cases hc : c = '|'
    · simp [hc, ih]
    · simp [hc, ih]

theorem barParts_pair {cs left right : List Char} : barParts cs = [left, right] ↔
    cs = left ++ '|' :: right ∧ '|' ∉ left ∧ '|' ∉ right := by
  constructor
  · intro h
    have hparts : ['|'].intercalate (cs.splitOn '|') = cs := List.intercalate_splitOn '|'
    have hjoin : cs = left ++ '|' :: right := by
      rw [← hparts, ← barParts_eq_splitOn, h]
      simp [List.intercalate]
    have hcount := length_barParts cs
    rw [h, hjoin, List.count_append, List.count_cons_self, List.length_cons,
      List.length_singleton] at hcount
    exact ⟨hjoin, List.count_eq_zero.1 (by omega), List.count_eq_zero.1 (by omega)⟩
  · rintro ⟨rfl, hleft, hright⟩
    rw [barParts_eq_splitOn, List.splitOn_append_cons_self_of_not_mem hleft,
      List.splitOn_eq_singleton hright]

theorem ofWord?_eq_some {word : String} {d : Direction} :
    Direction.ofWord? word = some d ↔ word = d.word := by
  unfold Direction.ofWord?
  cases d with
  | ascending => split <;> simp_all [Records.Direction.word]
  | descending => split <;> simp_all [Records.Direction.word]

/-- What is written for a sort: a field and the word of a direction, with one bar between them and
blanks around either. -/
def IsWritten (written : Value) (field : String) (d : Direction) : Prop :=
  ∃ left right : List Char, written = .text (String.ofList (left ++ '|' :: right)) ∧
    '|' ∉ left ∧ '|' ∉ right ∧ Text.trim (String.ofList left) = field ∧
    Text.lower (Text.trim (String.ofList right)) = d.word

theorem parseSort?_eq_some {s field : String} {d : Direction} :
    parseSort? s = some ⟨field, d⟩ ↔ IsWritten (.text s) field d ∧ field ≠ "" := by
  have hparts : IsWritten (.text s) field d ↔ ∃ left right, barParts s.toList = [left, right] ∧
      Text.trim (String.ofList left) = field ∧
      Direction.ofWord? (Text.lower (Text.trim (String.ofList right))) = some d := by
    simp only [IsWritten, barParts_pair, ofWord?_eq_some, Value.text.injEq, String.ext_iff,
      String.toList_ofList, and_assoc]
  rw [hparts]
  unfold parseSort?
  split
  · rename_i left right h
    constructor
    · intro hsome
      cases hd : Direction.ofWord? (Text.lower (Text.trim (String.ofList right))) with
      | none =>
        rw [hd] at hsome
        cases hsome
      | some d' =>
        rw [hd] at hsome
        dsimp only at hsome
        split at hsome
        · cases hsome
        · cases hsome
          exact ⟨⟨left, right, h, rfl, hd⟩, ‹_›⟩
    · rintro ⟨⟨l, r, hpair, rfl, hd⟩, hne⟩
      obtain ⟨rfl, rfl⟩ : left = l ∧ right = r := by simpa [h] using hpair
      rw [hd]
      exact if_neg hne
  · rename_i h
    refine iff_of_false (by simp) ?_
    rintro ⟨⟨left, right, hpair, -⟩, -⟩
    exact h left right hpair

/-- What is written for a sort names a column of a model and a direction. -/
def Names (m : Model) (written : Value) (c : Column) (d : Direction) : Prop :=
  ∃ field, IsWritten written field d ∧ field ≠ "" ∧ m.column? field = some c

theorem sortOf_eq_some {written : Value} {field : String} {d : Direction} :
    sortOf written = some ⟨field, d⟩ ↔ IsWritten written field d ∧ field ≠ "" := by
  cases written with
  | text s => exact parseSort?_eq_some
  | _ => simp [sortOf, IsWritten]

theorem sortColumn_eq_some {m : Model} {written : Value} {c : Column} {d : Direction} :
    sortColumn m (sortOf written) = some (c, d) ↔ Names m written c d := by
  unfold sortColumn Names
  simp only [← and_assoc, ← sortOf_eq_some]
  cases sortOf written with
  | none => simp
  | some sort =>
    obtain ⟨field, d'⟩ := sort
    cases hc : m.column? field <;> simp [hc, and_comm]

theorem sortColumn_eq_none {m : Model} {written : Value} (h : ∀ c d, ¬ Names m written c d) :
    sortColumn m (sortOf written) = none := by
  rw [Option.eq_none_iff_forall_ne_some]
  rintro ⟨c, d⟩ hsort
  exact h c d (sortColumn_eq_some.1 hsort)

/-- Some entries hold the same as others under every key but one. -/
def AgreeBut (key : String) (es fs : List (String × Value)) : Prop :=
  ∀ other, other ≠ key → Value.lookup? other fs = Value.lookup? other es

theorem AgreeBut.symm {key : String} {es fs : List (String × Value)} (h : AgreeBut key es fs) :
    AgreeBut key fs es := fun other hne => (h other hne).symm

/-- With another sort all other parameters are read as before. -/
theorem readParams_resorted {es fs : List (String × Value)} (h : AgreeBut "sort" es fs)
    {p : Params} (hp : (readParams (.object es)).outcome = .ok p) :
    p.sort = sortOf (entryOr "sort" es) ∧
      (readParams (.object fs)).outcome = .ok { p with sort := sortOf (entryOr "sort" fs) } := by
  rw [outcome_readParams_object, outcome_paramsOf_ok] at hp ⊢
  have hother (key : String) (hne : key ≠ "sort") : entryOr key fs = entryOr key es :=
    congrArg (fun v => v.getD .null) (h key hne)
  obtain ⟨hfilters, hsort, hlimit, hpage⟩ := hp
  rw [hother "filter" (by decide), hother "limit" (by decide), hother "page" (by decide)]
  exact ⟨hsort, hfilters, rfl, hlimit, hpage⟩

end Listing

namespace Resource

/-- Some records of a resource in the order of a column. -/
def InOrder (r : Resource) (st : Store) (c : Column) (d : Direction) (refs : List Ref) : Prop :=
  ∃ rows : List Row, refs = rows.map r.refOf ∧ (∀ row ∈ rows, row ∈ st.rows r.model) ∧
    rows.Pairwise (Row.Precedes c d)

section Listings
variable {r : Resource} {p : Params} {ps : List Predicate} {withTrashed : Bool} {st : Store}

theorem rows_perm (r : Resource) (p : Params) (ps : List Predicate) (withTrashed : Bool)
    (st : Store) (sort : Option SortSpec) :
    ((r.listingQuery { p with sort := sort } ps withTrashed).rows st).Perm
      ((r.listingQuery p ps withTrashed).rows st) :=
  (Query.sorted_perm ..).trans (Query.sorted_perm ..).symm

theorem rows_inOrder {c : Column} {d : Direction} (h : sortColumn r.model p.sort = some (c, d)) :
    ((r.listingQuery p ps withTrashed).rows st).Pairwise (Row.Precedes c d) := by
  change (Query.sorted _ (sortColumn r.model p.sort)).Pairwise _
  rw [h]
  exact Query.pairwise_sorted c d (Query.matching_ascending _ st)

theorem inOrder_of_sublist {c : Column} {d : Direction} {refs : List Ref}
    (h : sortColumn r.model p.sort = some (c, d))
    (hrefs : refs.Sublist (((r.listingQuery p ps withTrashed).rows st).map r.refOf)) :
    r.InOrder st c d refs := by
  obtain ⟨rows, hrows, rfl⟩ := List.sublist_map_iff.1 hrefs
  exact ⟨rows, rfl, fun row hrow => (Query.of_mem_rows (hrows.subset hrow)).1,
    (rows_inOrder h).sublist hrows⟩

end Listings

section Resorted
variable {r : Resource} {relations : Value} {withTrashed : Bool} {se se' : Session}
  {es fs : List (String × Value)} (hstore : se'.store = se.store)
  (hactive : se'.inactive = se.inactive) (hagree : AgreeBut "sort" es fs)
include hstore hactive hagree

/-- A listing that runs also runs with another sort, as the same query in another order. -/
theorem listAll_resorted {refs : List Ref}
    (h : (r.listAll (.object es) relations withTrashed se).result = .ok refs) :
    ∃ p ps, p.sort = sortOf (entryOr "sort" es) ∧
      refs = ((r.listingQuery p ps withTrashed).rows se.store).map r.refOf ∧
      (r.listAll (.object fs) relations withTrashed se').result =
        .ok (((r.listingQuery { p with sort := sortOf (entryOr "sort" fs) } ps withTrashed).rows
          se.store).map r.refOf) := by
  obtain ⟨p, ps, chains, hp, hchains, hps, hse, hrun, hrefs⟩ := result_listAll_ok.1 h
  obtain ⟨hsort, hp'⟩ := readParams_resorted hagree hp
  refine ⟨p, ps, hsort, hrefs, result_listAll_ok.2 ⟨_, ps, chains, hp', ?_, hps, ?_, ?_, ?_⟩⟩
  · rw [result_eager r relations se se', hchains]
  · rw [hactive, hse]
  · -- A sort has no parameters that would have to be bound.
    have hbind := run_listingQuery.1 hrun
    exact run_listingQuery.2 hbind
  · rw [hstore]

theorem listPage_resorted {page : Page Ref}
    (h : (r.listPage (.object es) relations withTrashed se).result = .ok page) :
    ∃ p ps, p.sort = sortOf (entryOr "sort" es) ∧
      page = Page.cut (((r.listingQuery p ps withTrashed).rows se.store).map r.refOf)
        p.limit.toNat p.page.toNat ∧
      (r.listPage (.object fs) relations withTrashed se').result =
        .ok (Page.cut (((r.listingQuery { p with sort := sortOf (entryOr "sort" fs) } ps
          withTrashed).rows se.store).map r.refOf) p.limit.toNat p.page.toNat) := by
  obtain ⟨p, ps, chains, hp, hchains, hps, hse, hbind, hoffset, hpage⟩ := result_listPage_iff.1 h
  obtain ⟨hsort, hp'⟩ := readParams_resorted hagree hp
  refine ⟨p, ps, hsort, hpage,
    result_listPage_iff.2 ⟨_, ps, chains, hp', ?_, hps, ?_, hbind, hoffset, ?_⟩⟩
  · rw [result_eager r relations se se', hchains]
  · rw [hactive, hse]
  · rw [hstore]

/-- Sorts that name the same column and direction, or both none, make the same listing. -/
theorem listings_sorted_alike (relations : Value) (withTrashed : Bool)
    (hsame : sortColumn r.model (sortOf (entryOr "sort" fs)) =
      sortColumn r.model (sortOf (entryOr "sort" es))) :
    (∀ refs, (r.listAll (.object es) relations withTrashed se).result = .ok refs →
      (r.listAll (.object fs) relations withTrashed se').result = .ok refs) ∧
    ∀ page, (r.listPage (.object es) relations withTrashed se).result = .ok page →
      (r.listPage (.object fs) relations withTrashed se').result = .ok page := by
  have hquery {p : Params} (hp : p.sort = sortOf (entryOr "sort" es)) (ps : List Predicate) :
      r.listingQuery { p with sort := sortOf (entryOr "sort" fs) } ps withTrashed =
        r.listingQuery p ps withTrashed := by
    unfold listingQuery
    rw [hsame, hp]
  constructor
  · intro refs h
    obtain ⟨p, ps, hp, rfl, hfs⟩ := listAll_resorted hstore hactive hagree h
    rw [hfs, hquery hp]
  · intro page h
    obtain ⟨p, ps, hp, rfl, hfs⟩ := listPage_resorted hstore hactive hagree h
    rw [hfs, hquery hp]

end Resorted

end Resource

end Records
