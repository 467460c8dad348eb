import Records.Proofs.Resource.Operation

/-!
Settled sessions: nothing is staged in them, and what they hold is what the store has. A change that
succeeds leaves a settled session wherever it began, and so does every failure once it is rolled
back. Only a read that loads relations may hold less than the store has, for it leaves out trashed
records.
-/
namespace Records

open Records.Action
open Records.Listing (Params)

/-- Nothing is staged, and whatever is held is what the store has. -/
structure Session.Settled (s : Schema) (se : Session) : Prop where
  staged : se.staged = .empty
  active : se.inactive = false
  inStep : se.records.InStep s se.store

/-- A read that loads no relations. -/
def Read.LoadsNothing : Read → Prop
  | .findAll _ => True
  | .view _ relations _ _ => relations.isTruthy = false
  | .findBy _ relations => relations.isTruthy = false
  | .getList _ relations _ => relations.isTruthy = false
  | .listAll _ relations => relations.isTruthy = false
  | .listPage _ relations => relations.isTruthy = false

def Operation.LoadsNothing : Operation → Prop
  | .read _ q => q.LoadsNothing
  | _ => True

theorem Session.settled_of_empty {s : Schema} {se : Session} (hstaged : se.staged = .empty)
    (hactive : se.inactive = false) (hrecords : se.records = .empty) : se.Settled s :=
  ⟨hstaged, hactive, hrecords ▸ Graph.inStep_empty⟩

theorem Session.settled_rolledBack (s : Schema) (se : Session) : se.rolledBack.Settled s :=
  settled_of_empty rfl rfl rfl

theorem Graph.InStep.holdAll {s : Schema} {st : Store} {g : Graph} {m : Model} {rows : List Row}
    (hg : InStep s st g) (hm : m ∈ s.models) (hrows : ∀ row ∈ rows, row ∈ st.rows m)
    (deferred : List String) : InStep s st (rows.foldl (hold s st m deferred) g) := by
  refine Alike.of_related hg (fun ref href => (mem_refs_holdAll ref).2 (.inl href))
    (fun ref href => href) related?_holdAll (fun _ _ => rfl) fun ref => ?_
  rw [valuesOf_holdAll hm hrows, hg.values_eq]

/-- From a session with some property, an action that succeeds leaves a settled one. -/
def Settles {α : Type} (P : Session → Prop) (s : Schema) (x : Action α) : Prop :=
  Leaves P x (fun _ => Session.Settled s) fun _ _ => True

section Steps
variable {α β : Type} {s : Schema} {P : Session → Prop}

theorem leaves_anything (x : Action α) : Leaves P x (fun _ _ => True) fun _ _ => True := by
  intro se _
  split <;> trivial

/-- What comes before does not matter. -/
theorem Settles.after (x : Action α) {f : α → Action β}
    (hf : ∀ a, Settles (fun _ => True) s (f a)) : Settles P s (x >>= f) :=
  (leaves_anything x).bind hf

theorem Settles.bind {x : Action α} {f : α → Action β} (hx : Settles P s x)
    (hf : ∀ a, Settles (Session.Settled s) s (f a)) : Settles P s (x >>= f) :=
  Leaves.bind hx hf

theorem Settles.pure (a : α) : Settles (Session.Settled s) s (Pure.pure a) :=
  Leaves.pure fun _ h => h

theorem Settles.ofExcept (x : Except Failure α) : Settles (Session.Settled s) s (.ofExcept x) :=
  Leaves.ofExcept (fun _ _ _ h => h) fun _ _ _ _ => trivial

theorem Settles.ofReported {ε : Type} (f : ε → Failure) (x : Reported ε α) :
    Settles (Session.Settled s) s (.ofReported f x) := by
  intro se h
  split
  · exact h
  · trivial

theorem Settles.raise (p : Problem × LogEntry) : Settles P s (.raise p : Action α) :=
  fun _ _ => trivial

theorem settles_hold {m : Model} (hm : m ∈ s.models) (rows : List Row) (deferred : List String) :
    Settles (fun se => se.Settled s ∧ ∀ row ∈ rows, row ∈ se.store.rows m) s
      (Action.hold s m deferred rows) := by
  rintro se ⟨h, hrows⟩
  refine ⟨h.staged, h.active, ?_⟩
  rw [records_hold h.staged]
  exact h.inStep.holdAll hm hrows deferred

end Steps

namespace Resource
variable {r : Resource}

section Reads
variable (hm : r.model ∈ r.schema.models)

theorem settles_eager {relations : Value} (h : relations.isTruthy = false) :
    Leaves (Session.Settled r.schema) (r.eager relations)
      (fun chains se => se.Settled r.schema ∧ chains = []) fun _ _ => True := by
  have hpaths : relations.toPaths = .ok [] := by
    unfold Value.toPaths
    rw [h]
    rfl
  unfold eager
  rw [hpaths]
  exact fun se hse => ⟨hse, rfl⟩

theorem settles_conditions (criteria : Value) :
    Settles (Session.Settled r.schema) r.schema (r.conditions criteria) := by
  unfold conditions
  refine (Settles.ofExcept _).bind fun keys => ?_
  dsimp only
  split
  · exact .raise _
  · exact (Settles.ofExcept _).bind fun es => .pure _

theorem settles_deferred (columns : Value) :
    Settles (Session.Settled r.schema) r.schema (r.deferred columns) :=
  (Settles.ofExcept _).bind fun _ => .pure _

theorem settles_listing (params : Params) (withTrashed : Bool) :
    Leaves (Session.Settled r.schema) (r.listing params withTrashed)
      (fun q se => se.Settled r.schema ∧ q.model = r.model) fun _ _ => True := by
  unfold listing
  refine Leaves.bind (Settles.ofReported _ _) fun ps se h => ?_
  split
  · rename_i q hq
    rw [result_ofReported_ok, Listing.outcome_applySort (by rfl)] at hq
    cases hq
    exact ⟨h, rfl⟩
  · trivial

include hm

theorem settles_fetch {q : Query} (hmodel : q.model = r.model) (deferred : List String) :
    Settles (Session.Settled r.schema) r.schema (r.fetch q [] deferred) := by
  unfold fetch
  have hquery : Leaves (Session.Settled r.schema) (Action.query q)
      (fun rows se => se.Settled r.schema ∧ ∀ row ∈ rows, row ∈ se.store.rows r.model)
      fun _ _ => True := by
    intro se h
    unfold Action.query
    rw [h.active]
    cases hr : q.run se.store with
    | error e => trivial
    | ok rows =>
      obtain rfl := Query.run_ok hr
      refine ⟨h, fun row hrow => ?_⟩
      rw [← hmodel]
      exact (Query.of_mem_rows hrow).1
  refine hquery.bind fun rows => (settles_hold hm rows deferred).bind fun refs => ?_
  -- With no chains there is nothing to load.
  exact Settles.bind (fun se h => h) fun _ => .pure _

theorem settles_findById (id : Value) (withTrashed : Bool) :
    Settles (Session.Settled r.schema) r.schema (r.findById id [] withTrashed) :=
  (settles_fetch hm rfl []).bind fun _ => .pure _

theorem settles_findOneBy (criteria : Value) (withTrashed : Bool) :
    Settles (Session.Settled r.schema) r.schema (r.findOneBy criteria [] withTrashed) := by
  unfold findOneBy
  refine (settles_conditions criteria).bind fun ps => ?_
  exact (settles_fetch hm rfl []).bind fun _ => .pure _

theorem settles_read (withTrashed : Bool) {q : Read} (hq : q.LoadsNothing) :
    Settles (Session.Settled r.schema) r.schema (r.read withTrashed q) := by
  cases q with
  | findAll columns =>
    refine Settles.bind ?_ fun _ => .pure _
    exact (settles_deferred columns).bind fun deferred => settles_fetch hm rfl deferred
  | view id relations appends hidden =>
    refine Settles.bind ?_ fun _ => .pure _
    unfold view
    refine (settles_eager hq).bind fun chains => .given ?_
    rintro rfl
    refine (settles_findById hm id withTrashed).bind fun found => ?_
    cases found with
    | none => exact .raise _
    | some ref =>
      refine (Settles.ofExcept _).bind fun names => ?_
      split
      · exact Settles.bind (.pure _) fun _ => .pure _
      · refine (Settles.ofExcept _).bind fun _ => ?_
        exact Settles.bind (.pure _) fun _ => .pure _
  | findBy criteria relations =>
    refine Settles.bind ?_ fun _ => .pure _
    refine (settles_eager hq).bind fun chains => .given ?_
    rintro rfl
    exact settles_findOneBy hm criteria withTrashed
  | getList criteria relations columns =>
    refine Settles.bind ?_ fun _ => .pure _
    refine (settles_eager hq).bind fun chains => .given ?_
    rintro rfl
    refine (settles_deferred columns).bind fun deferred => ?_
    exact (settles_conditions criteria).bind fun ps => settles_fetch hm rfl deferred
  | listAll params relations =>
    refine Settles.bind ?_ fun _ => .pure _
    refine (Settles.ofReported _ _).bind fun p => ?_
    refine (settles_eager hq).bind fun chains => .given ?_
    rintro rfl
    refine (settles_listing p withTrashed).bind fun q => .given fun hmodel => ?_
    exact settles_fetch hm hmodel []
  | listPage params relations =>
    refine Settles.bind ?_ fun _ => .pure _
    refine (Settles.ofReported _ _).bind fun p => ?_
    refine (settles_eager hq).bind fun chains => .given ?_
    rintro rfl
    refine (settles_listing p withTrashed).bind fun q => .given fun hmodel => ?_
    unfold paginate
    refine Settles.bind (fun se h => ?_) fun total => ?_
    · rw [session_count]
      split <;> first | exact h | trivial
    · have hfetch (w : Int × Int) :=
        settles_fetch (q := { q with window := some w }) hm hmodel []
      exact (hfetch _).bind fun _ => .pure _

end Reads

section Writing
variable {s : Schema} {P : Session → Prop}

/-- Whatever was staged, a write leaves a settled session on the store that it wrote. -/
theorem settles_flush (s : Schema) : Leaves P (Action.flush s)
    (fun w se => se.Settled s ∧ se.store = w.store) fun _ _ => True := by
  intro se _
  unfold Action.flush
  cases se.inactive with
  | true => trivial
  | false =>
    simp only [Bool.false_eq_true, if_false]
    cases se.staged.flush s se.now se.store se.records with
    | error e => trivial
    | ok w => exact ⟨Session.settled_of_empty rfl rfl rfl, rfl⟩

theorem settles_commit (s : Schema) : Leaves P (Action.commit s)
    (fun w se => se.Settled s ∧ se.store = w.store) fun _ _ => True := by
  intro se hP
  cases hr : (Action.flush s se).result with
  | ok w =>
    rw [commit_apply_of_ok hr, hr]
    exact (settles_flush s).ok hP hr
  | error e =>
    rw [commit_apply_of_error hr]
    trivial

theorem settles_commitOn (st : Store) : Settles P s (Action.commitOn s st) := by
  intro se _
  have hcommit : Leaves (fun _ => True) (Action.commit s)
      (fun w se => se.Settled s ∧ se.store = w.store) fun _ _ => True := settles_commit s
  unfold Action.commitOn
  cases hr : (Action.commit s { se with store := st }).result with
  | ok w =>
    simp only [hr]
    exact (hcommit.ok trivial hr).1
  | error e =>
    simp only [hr]

theorem settles_save (s : Schema) (m : Model) : Leaves P (Action.save s m)
    (fun saved se => se.Settled s ∧ ∀ w, saved = some w → se.store = w.store) fun _ _ => True := by
  intro se hP
  cases hr : (Action.flush s se).result with
  | ok w =>
    rw [save_apply_of_ok hr]
    obtain ⟨hsettled, hstore⟩ := (settles_flush s).ok hP hr
    exact ⟨hsettled, fun w' hw => Option.some.inj hw ▸ hstore⟩
  | error e =>
    rcases save_of_error (m := m) hr with ⟨hnone, hsession⟩ | ⟨-, hescaped⟩
    · rw [hnone, hsession]
      exact ⟨Session.settled_rolledBack .., nofun⟩
    · rw [hescaped]
      trivial

theorem settles_reload (hm : r.model ∈ r.schema.models) (w : Written) (ref : Ref) :
    Settles (fun se => se.Settled r.schema ∧ se.store = w.store) r.schema (r.reload w ref) := by
  unfold reload
  split
  · rename_i row hrow
    refine Settles.bind (Leaves.weaken (settles_hold hm _ []) ?_) fun _ => .pure _
    rintro se ⟨h, hstore⟩
    refine ⟨h, fun row' hrow' => ?_⟩
    obtain ⟨id, -, hfound⟩ := Option.bind_eq_some_iff.1 hrow
    rw [hstore, List.mem_singleton.1 hrow']
    exact (Table.mem_of_find? hfound).1
  · exact fun se h => trivial

theorem settles_commitValues (hm : r.model ∈ r.schema.models) (ref : Ref)
    (es : List (String × Value)) : Settles P r.schema (r.commitValues ref es) :=
  .after _ fun _ => (settles_commit r.schema).bind fun w => settles_reload hm w ref

theorem settles_create (hm : r.model ∈ r.schema.models) (es : List (String × Value)) :
    Settles P r.schema (r.create es) :=
  .after _ fun ref => (settles_commit r.schema).bind fun w => settles_reload hm w ref

theorem settles_saveRecord (hm : r.model ∈ r.schema.models) (ref : Ref) (message : String) :
    Settles P r.schema (r.saveRecord ref message) := by
  unfold saveRecord
  refine (settles_save r.schema r.model).bind fun saved => ?_
  cases saved with
  | none => exact fun se h => h.1
  | some w =>
    refine Settles.bind (Leaves.weaken (settles_reload hm w ref) fun se h => ⟨h.1, h.2 w rfl⟩) ?_
    exact fun ref => Settles.bind (fun se h => h) fun _ => .pure _

end Writing

section Changes
variable {P : Session → Prop} (hm : r.model ∈ r.schema.models)
include hm

theorem settles_store (payload : Value) : Settles P r.schema (r.store payload) :=
  .after _ fun _ => .after _ fun holder => .after _ fun _ => .after _ fun _ =>
    settles_saveRecord hm holder _

theorem settles_update (id payload : Value) : Settles P r.schema (r.update id payload) := by
  refine .after _ fun found => ?_
  cases found with
  | none => exact .raise _
  | some holder =>
    exact .after _ fun _ => .after _ fun _ => .after _ fun _ => .after _ fun _ =>
      settles_saveRecord hm holder _

theorem settles_delete (ref : Ref) : Settles P r.schema (r.delete ref) := by
  unfold delete
  split
  · exact .after _ fun se => (settles_commitValues hm ref _).bind fun _ => .pure _
  · refine .after _ fun _ => Leaves.bind (settles_commit r.schema) fun w => ?_
    exact .pure fun se h => h.1

theorem settles_destroy (id : Value) : Settles P r.schema (r.destroy id) := by
  refine .after _ fun found => ?_
  cases found with
  | none => exact .raise _
  | some ref => exact (settles_delete hm ref).bind fun _ se h => h

theorem settles_restore (id : Value) : Settles P r.schema (r.restore id) := by
  refine .after _ fun found => ?_
  split
  · rename_i ref hsoft
    refine Settles.bind ?_ fun _ se h => h
    exact (settles_commitValues hm ref _).bind fun _ => .pure _
  · exact .raise _

theorem settles_updateOrCreate (attributes values : Value) :
    Settles P r.schema (r.updateOrCreate attributes values) := by
  refine .after _ fun found => ?_
  cases found with
  | some ref =>
    exact .after _ fun es => (settles_commitValues hm ref es).bind fun _ => .pure _
  | none => exact .after _ fun es => (settles_create hm es).bind fun _ => .pure _

theorem settles_firstOrCreate (attributes values : Value) :
    Settles (Session.Settled r.schema) r.schema (r.firstOrCreate attributes values) := by
  refine (settles_findOneBy hm attributes false).bind fun found => ?_
  cases found with
  | some ref => exact .pure _
  | none => exact .after _ fun es => (settles_create hm es).bind fun _ => .pure _

omit hm in
theorem settles_changeAll (ids : List Value) (es : List (String × Value)) :
    Settles P r.schema (r.changeAll ids es) := by
  refine .after _ fun chosen => .after _ fun se => ?_
  dsimp only
  split
  · exact fun _ _ => trivial
  · exact .after _ fun written => (settles_commitOn written.1).bind fun _ => .pure _

omit hm in
theorem settles_multiUpdate (ids attributes : Value) :
    Settles (Session.Settled r.schema) r.schema (r.multiUpdate ids attributes) := by
  refine (Settles.ofExcept _).bind fun ids => (Settles.ofExcept _).bind fun es => ?_
  dsimp only
  split
  · exact .raise _
  · split
    · exact .pure _
    · refine (settles_changeAll ids _).bind fun count => ?_
      exact Settles.bind (fun se h => h) fun _ => .pure _

/-- Every operation but a read that loads relations leaves a settled session. -/
theorem settles_perform {op : Operation} (hop : op.LoadsNothing) :
    Settles (Session.Settled r.schema) r.schema (r.perform op) := by
  cases op with
  | read withTrashed q => exact (settles_read hm withTrashed hop).bind fun _ => .pure _
  | store payload => exact (settles_store hm payload).bind fun _ => .pure _
  | update id payload => exact (settles_update hm id payload).bind fun _ => .pure _
  | destroy id => exact (settles_destroy hm id).bind fun _ => .pure _
  | restore id => exact (settles_restore hm id).bind fun _ => .pure _
  | firstOrCreate attributes values =>
    exact (settles_firstOrCreate hm attributes values).bind fun _ => .pure _
  | updateOrCreate attributes values =>
    exact (settles_updateOrCreate hm attributes values).bind fun _ => .pure _
  | multiUpdate ids attributes =>
    exact (settles_multiUpdate ids attributes).bind fun _ => .pure _

end Changes

end Resource

theorem Session.Settled.next {c : Call} (hm : c.resource.model ∈ c.resource.schema.models)
    (hop : c.operation.LoadsNothing) {se : Session} (h : se.Settled c.resource.schema) :
    (c.run se).next.Settled c.resource.schema := by
  have hnow : Session.Settled c.resource.schema { se with now := c.now } :=
    ⟨h.staged, h.active, h.inStep⟩
  have hsettles := Resource.settles_perform hm hop hnow
  unfold Outcome.next Call.run
  cases hr : (c.resource.perform c.operation { se with now := c.now }).result with
  | ok a =>
    rw [hr] at hsettles
    exact hsettles
  | error e => exact Session.settled_rolledBack ..

/-- The session that some calls leave, one after another. -/
def Session.after (calls : List Call) (se : Session) : Session :=
  calls.foldl (fun se c => (c.run se).next) se

/-- A session stays settled as long as nothing is read with its relations. -/
theorem Session.Settled.after {s : Schema} {calls : List Call}
    (hcalls : ∀ c ∈ calls, c.resource.schema = s ∧ c.resource.model ∈ s.models)
    (hops : ∀ c ∈ calls, c.operation.LoadsNothing) {se : Session} (h : se.Settled s) :
    (Session.after calls se).Settled s := by
  induction calls generalizing se with
  | nil => exact h
  | cons c calls ih =>
    obtain ⟨⟨rfl, hm⟩, hrest⟩ := List.forall_mem_cons.1 hcalls
    obtain ⟨hop, hlater⟩ := List.forall_mem_cons.1 hops
    exact ih hrest hlater (h.next hm hop)

end Records
