import Records.Proofs.Resource.Atomic
import Records.Proofs.Resource.Updating

/-!
Saves that break off with a failure other than a record that is not found. The tables are as
before, unless the record was written and could not be read back. The session need not be: a nested
record that cannot be looked up leaves behind what was staged until then, and some failures of a
write leave a session that has to be rolled back before it can be used again.
-/
namespace Records

open Records.Action

/-- A session in which a save broke off before anything was staged. -/
structure Session.Unharmed (s : Schema) (se se' : Session) : Prop where
  kept : se.Kept se'
  staged : se'.staged = .empty
  alike : se.records.Sound s → Session.Alike s .empty [] se se'

/-- What the store did not take. -/
def Outcome.refusal? {α : Type} (o : Outcome α) : Option StoreError :=
  match o.result with
  | .error (.write (.store x)) => some x
  | _ => none

theorem Outcome.refusal?_eq_some {α : Type} {o : Outcome α} {x : StoreError} :
    o.refusal? = some x ↔ o.result = .error (.store x) := by
  unfold refusal?
  constructor
  · intro h
    split at h
    · rename_i y hy
      rw [hy, Option.some.inj h]
      rfl
    · cases h
  · intro h
    rw [h]
    rfl

/-- The ways to save a payload. -/
inductive Saving
  | store
  | update (id : Value)

def Resource.saving (r : Resource) (payload : Value) : Saving → Action (Option Ref)
  | .store => r.store payload
  | .update id => r.update id payload

/-- What a save that breaks off with a failure leaves behind. -/
inductive Session.Aftermath (r : Resource) (payload : Value) (c : Saving) (se : Session)
    (e : Failure) (se' : Session) : Prop
  /-- Nothing: it broke off before anything was staged. -/
  | unharmed (hsession : se.Unharmed r.schema se')
  /-- What was staged until a nested record could not be looked up. -/
  | staged (hsession : se.Kept se') (he : ∃ x, e = .store x) (hc : ∃ id, c = .update id)
    (hnested : ∃ h es, r.Nests payload h es ∧
      (Value.lookup? idColumn.name es).getD .null ≠ .null)
  /-- A session that has to be rolled back. -/
  | blocked (he : e.escapes = true) (hsession : se' = { se.rolledBack with inactive := true })
  /-- The record, which was written and not found when it was read back. -/
  | written (he : e = .notRefreshed r.model.name) (hsession : se'.Settled r.schema)

/-- A failure leaves an aftermath, unless it is a problem. -/
def Session.Breaks (r : Resource) (payload : Value) (c : Saving) (se : Session) (e : Failure)
    (se' : Session) : Prop := (∀ p, e ≠ .problem p) → Session.Aftermath r payload c se e se'

section Unharmed
variable {s : Schema} {se : Session}

theorem Session.Unharmed.refl (hstaged : se.staged = .empty) (hactive : se.inactive = false) :
    se.Unharmed s se :=
  ⟨.refl se, hstaged, fun hsound => ⟨rfl, rfl, hstaged, hstaged, hactive, hactive, .refl hsound,
    fun e he => by cases he⟩⟩

/-- Rows of the store that are held change nothing that is seen. -/
theorem Session.unharmed_hold {m : Model} (hm : m ∈ s.models) (hstaged : se.staged = .empty)
    (hactive : se.inactive = false) {rows : List Row} (hrows : ∀ row ∈ rows, row ∈ se.store.rows m)
    (deferred : List String) : se.Unharmed s (Action.hold s m deferred rows se).session := by
  refine ⟨⟨⟨rfl, rfl⟩, rfl⟩, hstaged, fun hsound => ?_⟩
  refine ⟨rfl, rfl, hstaged, hstaged, hactive, hactive, ?_, fun e he => by cases he⟩
  rw [records_hold hstaged]
  refine (Graph.Alike.refl hsound).of_related (fun _ href => href)
    (fun _ href => (Graph.mem_refs_holdAll _).2 (.inl href)) (fun _ _ => rfl)
    (fun _ _ => Graph.related?_holdAll ..) fun ref => ?_
  exact Graph.valuesOf_holdAll hm hrows ref

end Unharmed

namespace Resource
variable {r : Resource} {se : Session} {payload : Value} {c : Saving}

theorem leaves_query_kept (hactive : se.inactive = false) (q : Query) :
    Leaves se.Kept (Action.query q) (fun _ => se.Kept)
      fun e se' => se.Kept se' ∧ ∃ x, e = .store x := by
  intro se' hkept
  have hactive' : se'.inactive = false := hkept.2.trans hactive
  unfold Action.query
  rw [hactive']
  cases q.run se'.store with
  | error x => exact ⟨hkept, x, rfl⟩
  | ok rows => exact hkept

theorem leaves_findRelated_kept (hactive : se.inactive = false) (holder : Ref) (h : Handle)
    (id : Value) : Leaves se.Kept (r.findRelated holder h id) (fun _ => se.Kept)
      fun e se' => se.Kept se' ∧ ∃ x, e = .store x := by
  unfold findRelated
  refine (leaves_belongs h holder).bind fun ps => (leaves_query_kept hactive _).bind fun rows => ?_
  exact (leaves_hold [] rows).bind fun refs => .pure fun se' hkept => hkept

/-- What is fetched without its relations is held, and nothing more is done. -/
theorem unharmed_fetch (hm : r.model ∈ r.schema.models) (hstaged : se.staged = .empty)
    (hactive : se.inactive = false) {q : Query} (hmodel : q.model = r.model)
    (deferred : List String) :
    Leaves (Eq se) (r.fetch q [] deferred)
      (fun refs se' => se.Unharmed r.schema se' ∧
        ∀ ref ∈ refs, ∃ row ∈ se.store.rows r.model, ref = r.refOf row)
      fun _ => se.Unharmed r.schema := by
  unfold fetch
  have hquery : Leaves (Eq se) (Action.query q)
      (fun rows se' => se' = se ∧ ∀ row ∈ rows, row ∈ se.store.rows q.model)
      (fun _ => se.Unharmed r.schema) := by
    rintro se' rfl
    unfold Action.query
    rw [hactive]
    cases hr : q.run se.store with
    | error x => exact .refl hstaged hactive
    | ok rows =>
      obtain rfl := Query.run_ok hr
      exact ⟨rfl, fun row hrow => (Query.of_mem_rows hrow).1⟩
  refine hquery.bind fun rows => .given fun hrows => ?_
  rw [hmodel] at hrows
  refine Leaves.bind (Q := fun refs se' => se.Unharmed r.schema se' ∧
    ∀ ref ∈ refs, ∃ row ∈ se.store.rows r.model, ref = r.refOf row) ?_ fun refs => ?_
  · rintro se' rfl
    refine ⟨Session.unharmed_hold hm hstaged hactive hrows deferred, fun ref href => ?_⟩
    obtain ⟨row, hrow, rfl⟩ := List.mem_map.1 href
    exact ⟨row, hrows row hrow, rfl⟩
  · exact Leaves.bind (.modify fun se' hse' => hse') fun _ => .pure fun se' hse' => hse'

theorem unharmed_findById (hm : r.model ∈ r.schema.models) (hstaged : se.staged = .empty)
    (hactive : se.inactive = false) (id : Value) (withTrashed : Bool) :
    Leaves (Eq se) (r.findById id [] withTrashed)
      (fun found se' => se.Unharmed r.schema se' ∧
        ∀ ref, found = some ref → ∃ row ∈ se.store.rows r.model, ref = r.refOf row)
      fun _ => se.Unharmed r.schema :=
  (unharmed_fetch hm hstaged hactive rfl []).bind fun _ => .pure fun _ h =>
    ⟨h.1, fun ref href => h.2 ref (List.mem_of_head? href)⟩

/-- Looking the record up stages nothing. -/
theorem breaks_findById (hm : r.model ∈ r.schema.models) (hstaged : se.staged = .empty)
    (hactive : se.inactive = false) (id : Value) :
    Leaves (Eq se) (r.findById id [] false) (fun _ => se.Unharmed r.schema)
      (Session.Breaks r payload c se) :=
  ((unharmed_findById hm hstaged hactive id false).mono fun _ _ h => h.1).mono_error
    fun _ _ h _ => .unharmed h

theorem breaks_attachNested (hactive : se.inactive = false) (id : Value) (holder : Ref)
    {h : Handle} {es : List (String × Value)} (hn : r.Nests payload h es) :
    Leaves se.Kept (r.attachNested holder h es) (fun _ => se.Kept)
      (Session.Breaks r payload (.update id) se) := by
  unfold attachNested
  split
  · exact leaves_attachNew holder h es
  · rename_i hid
    have hfind : Leaves se.Kept (r.findRelated holder h
        ((Value.lookup? idColumn.name es).getD .null)) (fun _ => se.Kept)
        (Session.Breaks r payload (.update id) se) :=
      (leaves_findRelated_kept hactive holder h _).mono_error fun e se' he _ =>
        .staged he.1 he.2 ⟨id, rfl⟩ ⟨h, es, hn, hid⟩
    refine hfind.bind fun found => ?_
    cases found with
    | some member => exact (leaves_fill member es).bind fun _ => leaves_stage _
    | none =>
      -- What is raised here is a problem.
      refine (leaves_pendingValue holder _).bind fun holderId => ?_
      refine Leaves.bind (Q := fun _ _ => True) (fun _ _ => trivial) fun _ => ?_
      exact fun se' _ hproblem => absurd rfl (hproblem _)

/-- A write that fails is rolled back, or leaves a session that has to be. -/
theorem breaks_save : Leaves se.Kept (Action.save r.schema r.model)
    (fun saved se' => ∀ w, saved = some w → se'.Settled r.schema ∧ se'.store = w.store)
    (Session.Breaks r payload c se) := by
  intro se' hkept
  cases hr : (Action.flush r.schema se').result with
  | ok w =>
    rw [save_apply_of_ok hr]
    intro w' hw
    rw [← Option.some.inj hw]
    exact (settles_flush r.schema).ok hkept hr
  | error e =>
    rcases save_of_error (m := r.model) hr with ⟨hnone, -⟩ | ⟨hescapes, herror⟩
    · rw [hnone]
      exact nofun
    · rw [herror]
      have hflushed : se.Kept (Action.flush r.schema se').session :=
        ((leaves_flush r.schema).error hkept hr).2
      refine fun _ => .blocked hescapes ?_
      rw [session_save_of_escapes hr hescapes, Session.rolledBack_of_sameStore hflushed.1]

theorem breaks_saveRecord (ref : Ref) (message : String) :
    Leaves se.Kept (r.saveRecord ref message) (fun _ _ => True)
      (Session.Breaks r payload c se) := by
  unfold saveRecord
  refine breaks_save.bind fun saved => ?_
  cases saved with
  | none => exact .pure fun _ _ => trivial
  | some w =>
    refine Leaves.bind (Q := fun _ _ => True) ?_ fun ref => ?_
    · unfold reload
      split
      · exact fun _ _ => trivial
      · exact fun se' hse' _ => .written rfl (hse' w rfl).1
    · refine Leaves.bind (Q := fun _ _ => True) (fun _ _ => trivial) fun _ => ?_
      exact .pure fun _ _ => trivial

theorem breaks_toEntries : Leaves (se.Unharmed r.schema) (Action.ofExcept payload.toEntries)
    (fun es se' => se.Kept se' ∧ es = payload.entries) (Session.Breaks r payload c se) := by
  refine .ofExcept (fun es hes se' hse' => ?_) fun e _ se' hse' _ => .unharmed hse'
  exact ⟨hse'.kept, Value.entries_of_toEntries hes⟩

theorem breaks_store (hstaged : se.staged = .empty) (hactive : se.inactive = false) :
    Leaves (Eq se) (r.store payload) (fun _ _ => True) (Session.Breaks r payload .store se) := by
  unfold store
  refine (Leaves.weaken breaks_toEntries ?_).bind fun es => .given fun hes => ?_
  · rintro se' rfl
    exact .refl hstaged hactive
  refine (leaves_stageDraft _).bind fun holder => (leaves_nested es).bind fun ns => ?_
  refine (Leaves.forM fun n _ => .forM fun record _ => ?_).bind fun _ =>
    breaks_saveRecord holder _
  exact leaves_attachNew holder n.handle record

theorem breaks_update (hm : r.model ∈ r.schema.models) (hstaged : se.staged = .empty)
    (hactive : se.inactive = false) (id : Value) :
    Leaves (Eq se) (r.update id payload) (fun _ _ => True)
      (Session.Breaks r payload (.update id) se) := by
  unfold update
  refine (breaks_findById hm hstaged hactive id).bind fun found => ?_
  cases found with
  | none => exact fun se' _ hproblem => absurd rfl (hproblem _)
  | some holder =>
    refine breaks_toEntries.bind fun es => .given fun hes => ?_
    refine (leaves_fill holder es).bind fun _ => ?_
    refine (nested_nests fun e he => hes ▸ he).bind fun ns => .given fun hns => ?_
    refine (Leaves.forM fun n hn => .forM fun record hrecord => ?_).bind fun _ =>
      breaks_saveRecord holder _
    exact breaks_attachNested hactive id holder (hns n hn record hrecord)

/-- Rolling back undoes a save that was not written. -/
theorem rolledBack_of_aftermath {e : Failure} {se' : Session}
    (h : Session.Aftermath r payload c se e se') (he : e ≠ .notRefreshed r.model.name) :
    se'.store = se.store ∧ se'.rolledBack = se.rolledBack := by
  have hsame : se.SameStore se' := by
    cases h with
    | unharmed hsession => exact hsession.kept.1
    | staged hsession _ _ _ => exact hsession.1
    | blocked _ hsession => exact hsession ▸ ⟨rfl, rfl⟩
    | written hwritten _ => exact absurd hwritten he
  exact ⟨hsame.1, Session.rolledBack_of_sameStore hsame⟩

/-- A save breaks off with a failure that is no problem. Unless the record was written and could not
be read back, the tables are as before, and once the session is rolled back everything goes as if
the save had not been tried. Without that it does if nothing was staged yet. Otherwise a nested
record of an update could not be looked up, and what was staged until then is written by the next
save, or the write failed in a way that is passed on, and the session is of no use as it is. -/
theorem broken_save_aftermath (hm : r.model ∈ r.schema.models) (hclean : se.isClean = true)
    {e : Failure} (hbroken : (r.saving payload c se).result = .error e)
    (hproblem : ∀ p, e ≠ .problem p) :
    let se' := (r.saving payload c se).session
    let Later (calls : List Call) : Prop :=
      ∀ call ∈ calls, call.resource.schema = r.schema ∧ call.resource.model ∈ r.schema.models
    Session.Aftermath r payload c se e se' ∧
      (e ≠ .notRefreshed r.model.name → se'.store = se.store ∧ (se.Settled r.schema →
        ∀ calls, Later calls → replay calls se'.rolledBack = replay calls se)) ∧
      (se.Unharmed r.schema se' → se.records.Sound r.schema →
        ∀ calls, Later calls → replay calls se' = replay calls se) := by
  intro se' Later
  obtain ⟨hstaged, hactive⟩ : se.staged = .empty ∧ se.inactive = false := by
    simpa [Session.isClean] using hclean
  have haftermath : Session.Aftermath r payload c se e se' := by
    cases c with
    | store => exact (breaks_store hstaged hactive).error rfl hbroken hproblem
    | update id => exact (breaks_update hm hstaged hactive id).error rfl hbroken hproblem
  refine ⟨haftermath, fun he => ?_, fun hunharmed hsound calls hcalls => ?_⟩
  · obtain ⟨hstore, hrolledBack⟩ := rolledBack_of_aftermath haftermath he
    refine ⟨hstore, fun hsettled calls hcalls => ?_⟩
    have hundone : se.Undone se'.rolledBack := ⟨.inr hrolledBack, rfl⟩
    exact replay_alike hcalls (hundone.alike hsettled)
  · exact replay_alike hcalls (hunharmed.alike hsound)

/-- An author is renamed, and a nested book is looked up by an id that is none: the name stays
staged and comes along when another author is stored. -/
theorem broken_save_aftermath_renamed :
    let authors := Library.resource Library.author
    let se := Library.visit Library.catalogue
    let payload : Value := .object [("name", .text "Anna"),
      ("books", .list [.object [("id", .list [.int 1])]])]
    let o := authors.saving payload (.update (.int 1)) se
    let later := authors.store (.object [("name", .text "Jane")]) o.session
    o.result = .error (.store (.bind .unsupported)) ∧ o.session.store = Library.catalogue ∧
      (later.session.store.rows Library.author).map (·.cell "name") =
        .text "Anna" :: ((Library.catalogue.rows Library.author).map (·.cell "name")).tail ++
          [.text "Jane"] := by
  intro authors se payload o later
  have hbroken : o.result = .error (.store (.bind .unsupported)) :=
    Outcome.refusal?_eq_some.1 (by decide +kernel)
  obtain ⟨-, htables, -⟩ := broken_save_aftermath (r := authors) (by decide) rfl hbroken nofun
  exact ⟨hbroken, (htables nofun).1, by decide +kernel⟩

/-- An id that is no number is written as the next one, and looked for in vain. -/
example :
    let payload : Value := .object [("id", .float .nan), ("name", .text "x")]
    let o := (Library.resource Library.author).store payload (Library.visit Library.catalogue)
    o.result.toOption = none ∧ (o.session.store.rows Library.author).getLast?.map
      (fun row => (row.id, row.cell "name")) = some (9, .text "x") := by
  decide +kernel

end Resource

end Records
