import Records.Proofs.Action
import Records.Proofs.Listing.Run
import Records.Proofs.Record.Chain
import Records.Record.View

/-!
Reads of a resource in two sessions. Where fetching and counting keep two sessions in a relation,
all reads do, and they tell and find the same in both.
-/
namespace Records

open Records.Action
open Records.Filter (Predicate compileAll)
open Records.Listing (Page Params)

/-- What a read found: records to be shown, and what a page tells about its place. -/
structure Found where
  views : List RecordView
  summary : List (String × Value) := []

def Found.ofRefs (refs : List Ref) (summary : List (String × Value) := []) : Found :=
  ⟨refs.map fun ref => ⟨ref, {}⟩, summary⟩

/-- A read of a resource. -/
inductive Read
  | findAll (columns : Value)
  | view (id relations appends hidden : Value)
  | findBy (criteria relations : Value)
  | getList (criteria relations columns : Value)
  | listAll (params relations : Value)
  | listPage (params relations : Value)

/-- What a relation of sessions has to allow for the reads of a resource: queries with conditions of
some kind are answered alike, and loading what they find keeps the relation. -/
structure Resource.Respects (r : Resource) (withTrashed : Bool) (Looks : List Predicate → Prop)
    (R E : Session → Session → Prop) : Prop where
  fetch : ∀ {q : Query} {ps : List Predicate}, q.model = r.model → Looks ps →
    q.conditions = (Query.base r.model withTrashed).conditions ++ ps →
    ∀ {chains : List (List Handle)}, (∀ hs ∈ chains, IsChain r.schema r.model hs) →
    ∀ deferred : List String, Relates R (r.fetch q chains deferred) (fun _ => R) E
  count : ∀ {q : Query} {ps : List Predicate}, q.model = r.model → Looks ps →
    q.conditions = (Query.base r.model withTrashed).conditions ++ ps →
    Relates R (Action.count q) (fun _ => R) E
  fails : ∀ se se', R se se' → E se se'
  looks_exactly : ∀ es : List (Column × Value), Looks (es.map fun e => exactly r.model e.1 e.2)
  looks_filter : ∀ {es : List (String × Value)} {ps : List Predicate},
    (compileAll r.schema r.model es).outcome = .ok ps → Looks (r.scope ++ ps)

namespace Resource

/-- Finds what a read asks for, trashed records only if they are wanted. -/
def read (r : Resource) (withTrashed : Bool) : Read → Action Found
  | .findAll columns => do return .ofRefs (← r.findAll columns)
  | .view id relations appends hidden => do
    return ⟨[← r.view id relations appends hidden withTrashed], []⟩
  | .findBy criteria relations => do
    return .ofRefs (← r.findBy criteria relations withTrashed).toList
  | .getList criteria relations columns => do
    return .ofRefs (← r.getList criteria relations columns withTrashed)
  | .listAll params relations => do return .ofRefs (← r.listAll params relations withTrashed)
  | .listPage params relations => do
    let page ← r.listPage params relations withTrashed
    return .ofRefs page.items page.summary

variable {r : Resource} {withTrashed : Bool} {Looks : List Predicate → Prop}
  {R E : Session → Session → Prop}

section Plain
variable (he : ∀ se se', R se se' → E se se')
include he

theorem relates_ofExcept {α : Type} (x : Except Failure α) :
    Relates R (Action.ofExcept x) (fun _ => R) E :=
  .ofExcept (fun _ _ _ _ h => h) he

theorem relates_ofReported {α ε : Type} (f : ε → Failure) (x : Reported ε α) :
    Relates R (Action.ofReported f x) (fun a se se' => R se se' ∧ x.outcome = .ok a) E :=
  .ofReported (fun _ ha _ _ h => ⟨h, ha⟩) he

theorem relates_eager (paths : Value) : Relates R (r.eager paths)
    (fun chains se se' => R se se' ∧ ∀ hs ∈ chains, IsChain r.schema r.model hs) E := by
  unfold eager
  refine (relates_ofExcept he _).bind fun names => ?_
  exact (relates_ofReported he _ _).mono fun chains _ _ h => ⟨h.1, isChain_of_chains h.2⟩

theorem relates_deferred (columns : Value) : Relates R (r.deferred columns) (fun _ => R) E := by
  unfold deferred
  exact (relates_ofExcept he _).bind fun _ => .pure fun _ _ h => h

theorem relates_conditions (criteria : Value) : Relates R (r.conditions criteria)
    (fun ps se se' => R se se' ∧
      ∃ es : List (Column × Value), ps = es.map fun e => exactly r.model e.1 e.2) E := by
  unfold conditions
  refine (relates_ofExcept he _).bind fun keys => ?_
  dsimp only
  split
  · exact .raise _ he
  · refine (relates_ofExcept he _).bind fun es => .pure fun se se' h => ⟨h, ?_⟩
    -- Every entry gives the condition that a column has exactly a value.
    refine ⟨es.filterMap fun e => (r.model.column? e.1).map fun c => (c, e.2), ?_⟩
    rw [List.map_filterMap]
    simp only [Option.map_map]
    rfl

end Plain

section Respects
variable (hr : r.Respects withTrashed Looks R E)
include hr

theorem relates_findById (id : Value) {chains : List (List Handle)}
    (hchains : ∀ hs ∈ chains, IsChain r.schema r.model hs) :
    Relates R (r.findById id chains withTrashed) (fun _ => R) E := by
  unfold findById
  have hlooks := hr.looks_exactly [(idColumn, id)]
  exact (hr.fetch rfl hlooks rfl hchains []).bind fun _ => .pure fun _ _ h => h

theorem relates_findOneBy (criteria : Value) {chains : List (List Handle)}
    (hchains : ∀ hs ∈ chains, IsChain r.schema r.model hs) :
    Relates R (r.findOneBy criteria chains withTrashed) (fun _ => R) E := by
  unfold findOneBy
  refine (relates_conditions hr.fails criteria).bind fun ps => .given ?_
  rintro ⟨es, rfl⟩
  exact (hr.fetch rfl (hr.looks_exactly es) rfl hchains []).bind fun _ => .pure fun _ _ h => h

theorem relates_findAllBy (criteria : Value) {chains : List (List Handle)}
    (hchains : ∀ hs ∈ chains, IsChain r.schema r.model hs) (deferred : List String) :
    Relates R (r.findAllBy criteria chains deferred withTrashed) (fun _ => R) E := by
  unfold findAllBy
  refine (relates_conditions hr.fails criteria).bind fun ps => .given ?_
  rintro ⟨es, rfl⟩
  exact hr.fetch rfl (hr.looks_exactly es) rfl hchains deferred

theorem relates_view (id relations appends hidden : Value) :
    Relates R (r.view id relations appends hidden withTrashed) (fun _ => R) E := by
  unfold view
  refine (relates_eager hr.fails relations).bind fun chains => .given fun hchains => ?_
  refine (relates_findById hr id hchains).bind fun found => ?_
  cases found with
  | none => exact .raise _ hr.fails
  | some ref =>
    dsimp only
    refine (relates_ofExcept hr.fails _).bind fun names => ?_
    split
    · exact Relates.bind (.pure fun _ _ h => h) fun _ => .pure fun _ _ h => h
    · refine (relates_ofExcept hr.fails _).bind fun _ => ?_
      exact Relates.bind (.pure fun _ _ h => h) fun _ => .pure fun _ _ h => h

theorem relates_findBy (criteria relations : Value) :
    Relates R (r.findBy criteria relations withTrashed) (fun _ => R) E := by
  unfold findBy
  refine (relates_eager hr.fails relations).bind fun chains => .given fun hchains => ?_
  exact relates_findOneBy hr criteria hchains

theorem relates_getList (criteria relations columns : Value) :
    Relates R (r.getList criteria relations columns withTrashed) (fun _ => R) E := by
  unfold getList
  refine (relates_eager hr.fails relations).bind fun chains => .given fun hchains => ?_
  refine (relates_deferred hr.fails columns).bind fun deferred => ?_
  exact relates_findAllBy hr criteria hchains deferred

theorem relates_listing (params : Params) : Relates R (r.listing params withTrashed)
    (fun q se se' => R se se' ∧ ∃ ps, Looks ps ∧ q.model = r.model ∧
      q.conditions = (Query.base r.model withTrashed).conditions ++ ps) E := by
  unfold listing
  refine (relates_ofReported hr.fails _ _).bind fun ps => .given fun hps => ?_
  refine (relates_ofReported hr.fails _ _).mono fun q _ _ h => ⟨h.1, r.scope ++ ps, ?_⟩
  obtain ⟨-, hq⟩ := h
  rw [Listing.outcome_applySort (by rfl)] at hq
  cases hq
  exact ⟨hr.looks_filter hps, rfl, rfl⟩

theorem relates_listAll (params relations : Value) :
    Relates R (r.listAll params relations withTrashed) (fun _ => R) E := by
  unfold listAll
  refine (relates_ofReported hr.fails _ _).bind fun p => .given fun _ => ?_
  refine (relates_eager hr.fails relations).bind fun chains => .given fun hchains => ?_
  refine (relates_listing hr p).bind fun q => .given ?_
  rintro ⟨ps, hlooks, hmodel, hconditions⟩
  exact hr.fetch hmodel hlooks hconditions hchains []

theorem relates_listPage (params relations : Value) :
    Relates R (r.listPage params relations withTrashed) (fun _ => R) E := by
  unfold listPage
  refine (relates_ofReported hr.fails _ _).bind fun p => .given fun _ => ?_
  refine (relates_eager hr.fails relations).bind fun chains => .given fun hchains => ?_
  refine (relates_listing hr p).bind fun q => .given ?_
  rintro ⟨ps, hlooks, hmodel, hconditions⟩
  unfold paginate
  refine (hr.count hmodel hlooks hconditions).bind fun total => ?_
  have hfetch (w : Int × Int) :=
    hr.fetch (q := { q with window := some w }) hmodel hlooks hconditions hchains []
  exact (hfetch _).bind fun _ => .pure fun _ _ h => h

end Respects

theorem relates_findAll (hr : r.Respects false Looks R E) (columns : Value) :
    Relates R (r.findAll columns) (fun _ => R) E := by
  unfold findAll
  refine (relates_deferred hr.fails columns).bind fun deferred => ?_
  exact hr.fetch rfl (hr.looks_exactly []) (List.append_nil _).symm (by simp) deferred

/-- Reads tell and find the same in sessions that single queries keep in a relation. -/
theorem relates_read (hr : r.Respects withTrashed Looks R E) (hlive : r.Respects false Looks R E)
    (q : Read) : Relates R (r.read withTrashed q) (fun _ => R) E := by
  cases q with
  | findAll columns => exact (relates_findAll hlive columns).bind fun _ => .pure fun _ _ h => h
  | view id relations appends hidden =>
    exact (relates_view hr id relations appends hidden).bind fun _ => .pure fun _ _ h => h
  | findBy criteria relations =>
    exact (relates_findBy hr criteria relations).bind fun _ => .pure fun _ _ h => h
  | getList criteria relations columns =>
    exact (relates_getList hr criteria relations columns).bind fun _ => .pure fun _ _ h => h
  | listAll params relations =>
    exact (relates_listAll hr params relations).bind fun _ => .pure fun _ _ h => h
  | listPage params relations =>
    exact (relates_listPage hr params relations).bind fun _ => .pure fun _ _ h => h

end Resource

/-- One session, which has a property. -/
def Session.Only (P : Session → Prop) (se se' : Session) : Prop := se' = se ∧ P se

namespace Action
variable {α : Type} {P : Session → Prop} {x : Action α}

theorem Relates.of_leaves (h : Leaves P x (fun _ => P) fun _ => P) :
    Relates (Session.Only P) x (fun _ => Session.Only P) (Session.Only P) := by
  rintro _ se ⟨rfl, hP⟩
  refine ⟨rfl, rfl, ?_⟩
  cases hr : (x se).result with
  | ok a => exact ⟨rfl, h.ok hP hr⟩
  | error e => exact ⟨rfl, h.error hP hr⟩

theorem Leaves.of_relates
    (h : Relates (Session.Only P) x (fun _ => Session.Only P) (Session.Only P)) :
    Leaves P x (fun _ => P) fun _ => P := by
  intro se hP
  obtain ⟨-, -, hkept⟩ := h ⟨rfl, hP⟩
  cases hr : (x se).result with
  | ok a =>
    rw [hr] at hkept
    exact hkept.2
  | error e =>
    rw [hr] at hkept
    exact hkept.2

theorem leaves_query_same (q : Query) : Leaves P (Action.query q) (fun _ => P) fun _ => P := by
  intro se h
  unfold Action.query
  cases se.inactive with
  | true => exact h
  | false => cases q.run se.store <;> exact h

theorem leaves_count_same (q : Query) : Leaves P (Action.count q) (fun _ => P) fun _ => P := by
  intro se h
  rw [session_count]
  split <;> exact h

end Action

namespace Resource
variable {r : Resource} {P : Session → Prop}

/-- Relations are resolved without a look at the session. -/
theorem leaves_eager_same (paths : Value) :
    Leaves P (r.eager paths) (fun _ => P) fun _ => P := by
  unfold eager
  refine (leaves_ofExcept_same _).bind fun names se h => ?_
  split <;> exact h

theorem leaves_conditions_same (criteria : Value) :
    Leaves P (r.conditions criteria) (fun _ => P) fun _ => P := by
  unfold conditions
  refine (leaves_ofExcept_same _).bind fun keys => ?_
  dsimp only
  split
  · exact fun _ h => h
  · exact (leaves_ofExcept_same _).bind fun es => .pure fun _ h => h

end Resource

namespace Resource
variable {r : Resource} {withTrashed : Bool} {P : Session → Prop}
  (hP : ∀ se records, P se → P { se with records := records })
include hP

/-- What does not depend on the records that a session holds is kept by what only reads. -/
theorem respects_only :
    r.Respects withTrashed (fun _ => True) (Session.Only P) (Session.Only P) where
  fetch _ _ _ _ _ _ := by
    refine .of_leaves ?_
    unfold fetch
    refine (leaves_query_same _).bind fun rows => ?_
    exact Leaves.bind (Q := fun _ => P) (fun se h => hP se _ h) fun refs =>
      Leaves.bind (Leaves.modify (S := P) fun se h => hP se _ h) fun _ => .pure fun _ h => h
  count _ _ _ := .of_leaves (leaves_count_same _)
  fails _ _ h := h
  looks_exactly _ := trivial
  looks_filter _ := trivial

theorem leaves_read_same (q : Read) : Leaves P (r.read withTrashed q) (fun _ => P) fun _ => P :=
  .of_relates (relates_read (respects_only hP) (respects_only hP) q)

theorem leaves_findById_same (id : Value) :
    Leaves P (r.findById id [] withTrashed) (fun _ => P) fun _ => P :=
  .of_relates (relates_findById (respects_only hP) id (by simp))

theorem leaves_findOneBy_same (criteria : Value) :
    Leaves P (r.findOneBy criteria [] withTrashed) (fun _ => P) fun _ => P :=
  .of_relates (relates_findOneBy (respects_only hP) criteria (by simp))

end Resource

end Records
