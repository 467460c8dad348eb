import Records.Resource

/-!
Listings driven by parameters from outside: a filter, a sort, and a page. The conditions of the
resource itself come first and hold whatever the parameters are.
-/
namespace Records.Resource

open Records.Listing

/-- The query of a listing. -/
def listing (r : Resource) (params : Params) (withTrashed : Bool) : Action Query := do
  let ps ← .ofReported .compile (Filter.compileAll r.schema r.model params.filters)
  let q := (Query.base r.model withTrashed).when (r.scope ++ ps)
  .ofReported .compile (applySort q params.sort)

/-- A page of a query: the total first, then the items. -/
def paginate (r : Resource) (q : Query) (chains : List (List Handle)) (limit page : Int) :
    Action (Page Ref) := do
  let w := Window.clamp limit page maxLimit
  let total ← .count q
  let items ← r.fetch { q with window := some (w.limit, w.offset) } chains []
  return ⟨items, total, w.page, w.limit⟩

/-- A page of the records that a filter selects. -/
def listPage (r : Resource) (params relations : Value) (withTrashed : Bool) :
    Action (Page Ref) := do
  let params ← .ofReported .params (readParams params)
  let chains ← r.eager relations
  let q ← r.listing params withTrashed
  r.paginate q chains params.limit params.page

/-- All records that a filter selects. -/
def listAll (r : Resource) (params relations : Value) (withTrashed : Bool) : Action (List Ref) := do
  let params ← .ofReported .params (readParams params)
  let chains ← r.eager relations
  let q ← r.listing params withTrashed
  r.fetch q chains []

end Records.Resource
