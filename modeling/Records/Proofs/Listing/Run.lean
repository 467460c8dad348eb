import Records.Proofs.Action
import Records.Resource.Listing

/-!
What a listing yields when it runs: the records of the rows of one query, which the filter, the
sort and the resource determine.
-/
namespace Records

open Records.Filter (Predicate compileAll)
open Records.Listing (Params Page SortSpec Window applySort maxLimit readParams)

/-- The column that a sort names and its direction. -/
def Listing.sortColumn (m : Model) (sort : Option SortSpec) : Option (Column × Direction) := do
  let sort ← sort
  let c ← m.column? sort.field
  return (c, sort.direction)

theorem Listing.outcome_applySort {ε : Type} {q : Query} (hq : q.sort = none)
    (sort : Option SortSpec) :
    (applySort q sort : Reported ε Query).outcome =
      .ok { q with sort := sortColumn q.model sort } := by
  unfold applySort sortColumn
  cases sort with
  | none => simp [← hq]
  | some sort =>
    dsimp only
    cases h : q.model.column? sort.field with
    | none => simp [h, Listing.report, Except.bind, ← hq]
    | some c => simp [h]

namespace Resource

/-- The record that a row of the resource stands for. -/
def refOf (r : Resource) (row : Row) : Ref := .stored r.model.name row.id

/-- The query of a listing whose filter was compiled to some conditions. -/
def listingQuery (r : Resource) (params : Params) (ps : List Predicate) (withTrashed : Bool) :
    Query :=
  { (Query.base r.model withTrashed).when (r.scope ++ ps) with
    sort := Listing.sortColumn r.model params.sort }

theorem result_listing_ok {r : Resource} {params : Params} {withTrashed : Bool} {se : Session}
    {q : Query} : (r.listing params withTrashed se).result = .ok q ↔
      ∃ ps, (compileAll r.schema r.model params.filters).outcome = .ok ps ∧
        q = r.listingQuery params ps withTrashed := by
  unfold listing
  simp only [Action.result_bind_ok, Action.result_ofReported_ok]
  refine exists_congr fun ps => and_congr_right fun _ => ?_
  rw [Listing.outcome_applySort (by rfl)]
  exact ⟨fun h => (Except.ok.inj h).symm, fun h => congrArg Except.ok h.symm⟩

theorem session_listing_of_ok {r : Resource} {params : Params} {withTrashed : Bool} {se : Session}
    {q : Query} (h : (r.listing params withTrashed se).result = .ok q) :
    (r.listing params withTrashed se).session = se := by
  unfold listing at h ⊢
  obtain ⟨ps, hps, -⟩ := Action.result_bind_ok.1 h
  rw [Action.session_bind_of_ok hps]
  rfl

theorem session_eager_of_ok {r : Resource} {paths : Value} {se : Session}
    {chains : List (List Handle)} (h : (r.eager paths se).result = .ok chains) :
    (r.eager paths se).session = se := by
  unfold eager at h ⊢
  obtain ⟨ps, hps, -⟩ := Action.result_bind_ok.1 h
  rw [Action.session_bind_of_ok hps]
  rfl

theorem result_fetch_ok {r : Resource} {q : Query} {chains : List (List Handle)}
    {deferred : List String} {se : Session} {refs : List Ref} :
    (r.fetch q chains deferred se).result = .ok refs ↔
      se.inactive = false ∧ q.run se.store = .ok (q.rows se.store) ∧
        refs = (q.rows se.store).map r.refOf := by
  unfold fetch
  simp only [Action.result_bind_ok, Action.result_query_ok]
  constructor
  · rintro ⟨rows, ⟨hactive, hrows⟩, held, hheld, -, -, hrefs⟩
    obtain rfl := Query.run_ok hrows
    refine ⟨hactive, hrows, ?_⟩
    cases hheld
    cases hrefs
    rfl
  · rintro ⟨hactive, hrows, rfl⟩
    exact ⟨_, ⟨hactive, hrows⟩, _, rfl, _, rfl, rfl⟩

/-- A listing without pages yields the rows of its query. -/
theorem result_listAll_ok {r : Resource} {params relations : Value} {withTrashed : Bool}
    {se : Session} {refs : List Ref} :
    (r.listAll params relations withTrashed se).result = .ok refs ↔
      ∃ p ps chains, (readParams params).outcome = .ok p ∧
        (r.eager relations se).result = .ok chains ∧
        (compileAll r.schema r.model p.filters).outcome = .ok ps ∧ se.inactive = false ∧
        (r.listingQuery p ps withTrashed).run se.store =
          .ok ((r.listingQuery p ps withTrashed).rows se.store) ∧
        refs = ((r.listingQuery p ps withTrashed).rows se.store).map r.refOf := by
  unfold listAll
  constructor
  -- No step before the fetch changes the session.
  · intro h
    obtain ⟨p, hp, h⟩ := Action.result_bind_ok.1 h
    obtain ⟨chains, hchains, h⟩ := Action.result_bind_ok.1 h
    rw [session_eager_of_ok hchains] at h
    obtain ⟨q, hq, h⟩ := Action.result_bind_ok.1 h
    rw [session_listing_of_ok hq] at h
    obtain ⟨ps, hps, rfl⟩ := result_listing_ok.1 hq
    obtain ⟨hactive, hrows, hrefs⟩ := result_fetch_ok.1 h
    exact ⟨p, ps, chains, Action.result_ofReported_ok.1 hp, hchains, hps, hactive, hrows, hrefs⟩
  · rintro ⟨p, ps, chains, hp, hchains, hps, hactive, hrows, hrefs⟩
    have hq : (r.listing p withTrashed se).result = .ok (r.listingQuery p ps withTrashed) :=
      result_listing_ok.2 ⟨ps, hps, rfl⟩
    refine Action.result_bind_ok.2 ⟨p, Action.result_ofReported_ok.2 hp, ?_⟩
    refine Action.result_bind_ok.2 ⟨chains, hchains, ?_⟩
    rw [Action.session_ofReported, session_eager_of_ok hchains]
    refine Action.result_bind_ok.2 ⟨_, hq, ?_⟩
    rw [session_listing_of_ok hq]
    exact result_fetch_ok.2 ⟨hactive, hrows, hrefs⟩

/-- A page counts the rows of the listing's query and yields those in its window. -/
theorem result_listPage_ok {r : Resource} {params relations : Value} {withTrashed : Bool}
    {se : Session} {page : Page Ref}
    (h : (r.listPage params relations withTrashed se).result = .ok page) :
    ∃ p ps, (readParams params).outcome = .ok p ∧
      (compileAll r.schema r.model p.filters).outcome = .ok ps ∧
      page.total = ((r.listingQuery p ps withTrashed).matching se.store).length ∧
      ∃ window, page.items =
        (Query.windowed ((r.listingQuery p ps withTrashed).rows se.store) window).map r.refOf := by
  unfold listPage at h
  obtain ⟨p, hp, h⟩ := Action.result_bind_ok.1 h
  obtain ⟨chains, hchains, h⟩ := Action.result_bind_ok.1 h
  rw [session_eager_of_ok hchains] at h
  obtain ⟨q, hq, h⟩ := Action.result_bind_ok.1 h
  rw [session_listing_of_ok hq] at h
  obtain ⟨ps, hps, rfl⟩ := result_listing_ok.1 hq
  refine ⟨p, ps, Action.result_ofReported_ok.1 hp, hps, ?_⟩
  unfold paginate at h
  obtain ⟨n, hn, h⟩ := Action.result_bind_ok.1 h
  rw [Action.session_count] at h
  obtain ⟨items, hitems, h⟩ := Action.result_bind_ok.1 h
  cases h
  have hn := Query.count_ok (Action.result_count_ok.1 hn).2
  exact ⟨congrArg Int.ofNat hn, _, (result_fetch_ok.1 hitems).2.2⟩

end Resource

end Records
