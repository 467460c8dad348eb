import Records.Library.Catalogue
import Records.Library.Resources
import Records.Proofs.Filter.Selection
import Records.Proofs.Listing.Scope
import Records.Proofs.Record.Shown
import Records.Proofs.Session.Mirrored
import Records.Record.View

/-!
Trashed rows are invisible to the reads that do not ask for them. Such a read finds the same in a
store and in the store without its trashed rows. What it found looks the same too, unless an
attribute that is appended to a record is a relation that was not loaded: reading it shows what the
relation holds in the store, trashed or not.
-/
namespace Records

open Records.Action
open Records.Calendar (Moment)
open Records.Filter (compileAll isWanted)
open Records.Filter.Predicate (allHold)
open Records.Listing (readParams)

/-- A session on a store that has done nothing so far. -/
def Session.fresh (st : Store) (now : Moment) : Session := { store := st, now := now }

theorem Session.mirrored_fresh (s : Schema) (st : Store) (now : Moment) :
    Session.Mirrored s st (.fresh st now) (.fresh (st.live s) now) :=
  ⟨rfl, rfl, rfl, rfl, rfl, rfl, rfl, .nil⟩

namespace Resource
variable {r : Resource} {st : Store}

theorem run_listingQuery_live {p : Listing.Params} {ps : List Filter.Predicate} {rows : List Row}
    (h : (r.listingQuery p ps true).run st = .ok rows) :
    (r.listingQuery p ps false).run st = .ok ((r.listingQuery p ps false).rows st) := by
  obtain ⟨⟨cells, hcells⟩, -⟩ := Query.run_eq_ok.1 h
  refine Query.run_eq_ok.2 ⟨⟨cells, ?_⟩, rfl⟩
  have hparameters : (r.listingQuery p ps false).parameters =
      (r.listingQuery p ps true).parameters := by
    unfold Query.parameters listingQuery Query.base Query.when notTrashed
    cases r.model.softDeletes <;>
      simp [Filter.Predicate.allParameters, Filter.Predicate.parameters]
  rw [hparameters]
  exact hcells

theorem rows_listingQuery_live (r : Resource) (p : Listing.Params) (ps : List Filter.Predicate)
    (st : Store) : (r.listingQuery p ps false).rows st =
      ((r.listingQuery p ps true).rows st).filter r.model.isLive := by
  change Query.sorted _ _ = (Query.sorted _ _).filter _
  rw [Query.filter_sorted]
  congr 1
  unfold Query.matching
  rw [List.filter_filter]
  refine List.filter_congr fun row _ => ?_
  -- The two queries differ in one condition, that the row is not trashed.
  simp only [listingQuery, Query.base, Query.when, Filter.Predicate.allHold_append,
    allHold_notTrashed, List.nil_append, if_true, Bool.false_eq_true, if_false]

theorem mem_rows_listingQuery_trashed {p : Listing.Params} {ps : List Filter.Predicate}
    (hps : (compileAll r.schema r.model p.filters).outcome = .ok ps) {row : Row} :
    row ∈ (r.listingQuery p ps true).rows st ↔ row ∈ st.rows r.model ∧
      allHold st row r.scope ∧ isWanted r.schema st r.model p.filters row := by
  change row ∈ Query.sorted _ _ ↔ _
  rw [Query.mem_sorted]
  unfold Query.matching
  rw [List.mem_filter]
  simp only [listingQuery, Query.base, Query.when, if_true, List.nil_append,
    Filter.Predicate.allHold_append, Filter.allHold_compileAll hps, Bool.and_eq_true]

theorem meets_notTrashed {row : Row} (hrow : row ∈ st.rows r.model) :
    st.meets r.model (notTrashed r.model) (r.refOf row) = r.model.isLive row := by
  rw [meets_refOf hrow, allHold_notTrashed]

/-- A listing with the trashed records shows, besides those without them, the trashed ones that
satisfy the same filter. -/
theorem listAll_trashed {params relations : Value} {se : Session} {refs : List Ref}
    (h : (r.listAll params relations true se).result = .ok refs) :
    ∃ p, (readParams params).outcome = .ok p ∧
      (r.listAll params relations false se).result =
        .ok (refs.filter (se.store.meets r.model (notTrashed r.model))) ∧
      ∀ ref, ref ∈ refs ∧ se.store.meets r.model (notTrashed r.model) ref = false ↔
        ∃ row ∈ se.store.rows r.model, r.model.isLive row = false ∧ ref = r.refOf row ∧
          allHold se.store row r.scope ∧ isWanted r.schema se.store r.model p.filters row := by
  obtain ⟨p, ps, chains, hp, hchains, hps, hactive, hrun, rfl⟩ := result_listAll_ok.1 h
  refine ⟨p, hp, ?_, fun ref => ?_⟩
  · refine result_listAll_ok.2
      ⟨p, ps, chains, hp, hchains, hps, hactive, run_listingQuery_live hrun, ?_⟩
    rw [rows_listingQuery_live, List.filter_map]
    congr 1
    refine List.filter_congr fun row hrow => ?_
    exact meets_notTrashed ((mem_rows_listingQuery_trashed hps).1 hrow).1
  · rw [List.mem_map]
    constructor
    · rintro ⟨⟨row, hrow, rfl⟩, hdead⟩
      obtain ⟨hmem, hwanted⟩ := (mem_rows_listingQuery_trashed hps).1 hrow
      rw [meets_notTrashed hmem] at hdead
      exact ⟨row, hmem, hdead, rfl, hwanted⟩
    · rintro ⟨row, hmem, hdead, rfl, hwanted⟩
      refine ⟨⟨row, (mem_rows_listingQuery_trashed hps).2 ⟨hmem, hwanted⟩, rfl⟩, ?_⟩
      rw [meets_notTrashed hmem, hdead]

/-- Where models append no relations, what is shown by default is the same without the trashed
rows. -/
theorem data_read_live (hm : r.model ∈ r.schema.models) (hscope : LooksAtLive r.schema st r.scope)
    (hplain : r.schema.AppendsPlain) (now : Moment) (q : Read) {found : Found}
    (hfound : (r.read false q (.fresh st now)).result = .ok found) {view : RecordView}
    (hview : view.visibility.appends = none) :
    view.data (r.read false q (.fresh (st.live r.schema) now)).session.records =
      view.data (r.read false q (.fresh st now)).session.records := by
  have hrespects := respects_mirrored hm hscope
  obtain ⟨-, -, hsession⟩ :=
    relates_read hrespects hrespects q (Session.mirrored_fresh r.schema st now)
  rw [hfound] at hsession
  refine (hsession.records.data_eq_iff view.record view.visibility).2 fun _ => ?_
  exact hsession.records.not_showsTrash hplain hview

example : Library.schema.AppendsPlain := by
  unfold Schema.AppendsPlain
  decide

/-- Trashed rows are invisible to reads that do not ask for them: such a read tells and finds the
same on the store without them, and each record found looks the same exactly if it shows no trashed
row through an attribute that is appended to it or to a record below it. A listing that asks for
trashed records adds to the same listing without them the trashed ones that satisfy its filter. -/
theorem trash_unseen {r : Resource} {st : Store} (hm : r.model ∈ r.schema.models)
    (hscope : LooksAtLive r.schema st r.scope) (now : Moment) :
    (∀ q : Read,
      let all := r.read false q (.fresh st now)
      let live := r.read false q (.fresh (st.live r.schema) now)
      live.log = all.log ∧ live.result = all.result ∧
      ∀ found, all.result = .ok found → ∀ view ∈ found.views,
        (view.data live.session.records = view.data all.session.records ↔
          ((∃ d, view.data all.session.records = .ok d) →
            ¬ all.session.records.ShowsTrash r.schema st all.session.records.refs view.record
              view.visibility))) ∧
    ∀ (params relations : Value) (refs : List Ref),
      (r.listAll params relations true (.fresh st now)).result = .ok refs →
      ∃ p, (readParams params).outcome = .ok p ∧
        (r.listAll params relations false (.fresh st now)).result =
          .ok (refs.filter (st.meets r.model (notTrashed r.model))) ∧
        ∀ ref, ref ∈ refs ∧ st.meets r.model (notTrashed r.model) ref = false ↔
          ∃ row ∈ st.rows r.model, r.model.isLive row = false ∧ ref = r.refOf row ∧
            allHold st row r.scope ∧ isWanted r.schema st r.model p.filters row := by
  constructor
  · intro q all live
    have hrespects := respects_mirrored hm hscope
    obtain ⟨hlog, hresult, hsession⟩ :=
      relates_read hrespects hrespects q (Session.mirrored_fresh r.schema st now)
    refine ⟨hlog, hresult, fun found hfound view _ => ?_⟩
    rw [hfound] at hsession
    exact hsession.records.data_eq_iff view.record view.visibility
  · intro params relations refs h
    exact listAll_trashed h

/-- A book whose author is trashed shows the author, once that is appended to it. -/
theorem trash_unseen_ghost :
    let q : Read := .view (.int 16) .null (.list [.text "author"]) (.list [])
    let now := (Library.visit Library.catalogue).now
    let books := Library.resource Library.book
    let refs (ids : List Int) : List Ref := ids.map (.stored "Book")
    let all := books.read false q (.fresh Library.catalogue now)
    let live := books.read false q (.fresh (Library.catalogue.live Library.schema) now)
    (∃ view, all.result = .ok ⟨[view], []⟩ ∧ live.result = .ok ⟨[view], []⟩ ∧
      view.data live.session.records ≠ view.data all.session.records) ∧
    (books.listAll .null .null true (.fresh Library.catalogue now)).result =
      .ok (refs [10, 11, 12, 13, 14, 15, 16]) ∧
    (books.listAll .null .null false (.fresh Library.catalogue now)).result =
      .ok (refs [10, 11, 12, 14, 15, 16]) := by
  intro q now books refs all live
  have hm : books.model ∈ books.schema.models := by decide
  have hscope : LooksAtLive books.schema Library.catalogue books.scope := fun _ => rfl
  have h := trash_unseen hm hscope now
  have hall : (books.listAll .null .null true (.fresh Library.catalogue now)).result =
      .ok (refs [10, 11, 12, 13, 14, 15, 16]) := rfl
  have hfound : all.result = .ok ⟨[⟨.stored "Book" 16, [], some ["author"]⟩], []⟩ := rfl
  refine ⟨⟨_, hfound, (h.1 q).2.1.trans hfound, fun heq => ?_⟩, hall, ?_⟩
  · refine ((h.1 q).2.2 _ hfound _ (List.mem_singleton_self _)).1 heq ?_ ?_
    · unfold RecordView.data Graph.data
      rw [Graph.dataBelow_of_node? (by decide) rfl]
      exact ⟨_, rfl⟩
    · refine .appended (a := "author") (by decide) rfl (by decide) (by decide) ?_
      refine ⟨rfl, rfl, _, rfl, .stored "Author" 7, by decide, Library.author, by decide, ?_⟩
      exact ⟨_, List.mem_of_getElem? (i := 6) rfl, rfl, rfl⟩
  · obtain ⟨-, -, hlive, -⟩ := h.2 _ _ _ hall
    exact hlive

end Resource

end Records
