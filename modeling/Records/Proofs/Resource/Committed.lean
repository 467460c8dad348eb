import Records.Proofs.Listing.Run
import Records.Proofs.Resource.Reads
import Records.Proofs.Resource.Updating
import Records.Proofs.Staging.Single

/-!
What a commit of one record's values, or of one new record, makes of a session in which nothing else
is staged.
-/
namespace Records

open Records.Calendar (Moment)
open Records.Filter (Predicate)

/-- A session on a store at some time, with nothing staged and nothing in its way. -/
structure Session.Ready (st : Store) (now : Moment) (se : Session) : Prop where
  store_eq : se.store = st
  now_eq : se.now = now
  staged : se.staged = .empty
  active : se.inactive = false

namespace Session
variable {st : Store} {now : Moment} {se : Session}

theorem ready_of_isClean (h : se.isClean = true) : se.Ready se.store se.now := by
  obtain ⟨hstaged, hactive⟩ := Bool.and_eq_true_iff.1 h
  exact ⟨rfl, rfl, eq_of_beq hstaged, by simpa using hactive⟩

theorem Ready.isClean (h : se.Ready st now) : se.isClean = true := by
  unfold Session.isClean
  rw [h.staged, h.active]
  rfl

theorem ready_committed (se : Session) (st : Store) : (se.committed st).Ready st se.now :=
  ⟨rfl, rfl, rfl, rfl⟩

/-- Which records are held makes no difference. -/
theorem Ready.holding (h : se.Ready st now) (g : Graph) :
    ({ se with records := g } : Session).Ready st now := ⟨h.1, h.2, h.3, h.4⟩

end Session

/-- What an action leaves whether it fails or not. -/
theorem Action.Leaves.session {α : Type} {P Q : Session → Prop} {x : Action α}
    (hx : Leaves P x (fun _ => Q) fun _ => Q) {se : Session} (hP : P se) : Q (x se).session := by
  have hleaves := hx hP
  cases hresult : (x se).result with
  | ok a => rwa [hresult] at hleaves
  | error e => rwa [hresult] at hleaves

namespace Action
variable {s : Schema} {se : Session}

theorem commit_of_ok (se : Session) (hactive : se.inactive = false) {w : Written}
    (h : se.staged.flush s se.now se.store se.records = .ok w) :
    commit s se = ⟨[], .ok w, se.committed w.store⟩ := by
  have hflush : flush s se = ⟨[], .ok w, se.committed w.store⟩ := by
    unfold flush
    rw [hactive, h]
    rfl
  rw [commit_apply_of_ok (congrArg Outcome.result hflush), hflush]

theorem commit_of_error (se : Session) (hactive : se.inactive = false) {e : WriteError}
    (h : se.staged.flush s se.now se.store se.records = .error e) :
    commit s se = ⟨[], .error (.write e), se.rolledBack⟩ := by
  have hflush : flush s se = ⟨[], .error (.write e), se⟩ := by
    unfold flush
    rw [hactive, h]
    rfl
  rw [commit_apply_of_error (congrArg Outcome.result hflush), hflush]

end Action

namespace Resource
variable {r : Resource} {st st' : Store} {now : Moment} {se : Session} {row : Row}
  {es : List (String × Value)}

section Lookups

theorem result_findById_ok {id : Value} {withTrashed : Bool} {found : Option Ref} :
    (r.findById id [] withTrashed se).result = .ok found ↔ se.inactive = false ∧
      ((Query.base r.model withTrashed).when [exactly r.model idColumn id]).run se.store =
        .ok (((Query.base r.model withTrashed).when [exactly r.model idColumn id]).rows se.store) ∧
      found = (((Query.base r.model withTrashed).when
        [exactly r.model idColumn id]).rows se.store).head?.map r.refOf := by
  unfold findById
  simp only [Action.result_bind_ok, result_fetch_ok]
  constructor
  · rintro ⟨refs, ⟨hactive, hrun, rfl⟩, hfound⟩
    cases hfound
    exact ⟨hactive, hrun, List.head?_map⟩
  · rintro ⟨hactive, hrun, rfl⟩
    exact ⟨_, ⟨hactive, hrun, rfl⟩, congrArg Except.ok List.head?_map⟩

theorem ready_findById (h : se.Ready st now) (id : Value) (withTrashed : Bool) :
    (r.findById id [] withTrashed se).session.Ready st now := by
  exact (leaves_findById_same (fun _ g h => h.holding g) id).session h

theorem ready_findOneBy (h : se.Ready st now) (criteria : Value) (withTrashed : Bool) :
    (r.findOneBy criteria [] withTrashed se).session.Ready st now := by
  exact (leaves_findOneBy_same (fun _ g h => h.holding g) criteria).session h

end Lookups

/-- Values of a stored record are staged, and then committed. -/
theorem commitValues_apply (se : Session) (row : Row) (es : List (String × Value)) :
    r.commitValues (r.refOf row) es se =
      (Action.commit r.schema >>= fun w => r.reload w (r.refOf row))
        { se with staged := se.staged.edit r.model row.id (r.model.fillValues es) } := rfl

section Commits
variable (hse : se.Ready st now)
include hse

theorem ready_reload {w : Written} {ref : Ref} (hid : w.id? ref = some row.id)
    (hrow : row ∈ w.store.rows r.model) :
    (r.reload w ref se).result = .ok (r.refOf row) ∧ (r.reload w ref se).session.Ready st now := by
  have hfound : ((w.id? ref).bind fun id => (w.store.table r.model.table).find? id) = some row := by
    rw [hid]
    exact Table.find?_of_mem hrow
  unfold reload
  rw [hfound]
  exact ⟨rfl, hse.holding _⟩

section Values
variable (hm : r.model ∈ r.schema.models) (hrow : row ∈ st.rows r.model)
include hm hrow

theorem flush_fill (es : List (String × Value)) :
    (se.staged.edit r.model row.id (r.model.fillValues es)).flush r.schema se.now se.store
        se.records =
      (st.rewrite r.schema r.model now row (r.model.fillValues es)).map fun st' => ⟨st', []⟩ := by
  rw [hse.staged, hse.store_eq, hse.now_eq]
  exact Staging.flush_edit hm hrow _

/-- The values of a stored record are committed as its row is rewritten. -/
theorem commitValues_of_ok (hs : r.schema.Stamped)
    (hst : st.rewrite r.schema r.model now row (r.model.fillValues es) = .ok st') :
    (r.commitValues (r.refOf row) es se).result = .ok (r.refOf row) ∧
      (r.commitValues (r.refOf row) es se).session.Ready st' now := by
  obtain ⟨row', rfl, hid, -⟩ := Store.rewrite_ok hs hm (r.model.spares_fillValues es) hrow hst
  have hflush := flush_fill hse hm hrow es
  rw [hst] at hflush
  have hcommit := Action.commit_of_ok (s := r.schema)
    { se with staged := se.staged.edit r.model row.id (r.model.fillValues es) }
    hse.active hflush
  have hready : (se.committed (st.withRow r.model row')).Ready (st.withRow r.model row') now :=
    hse.now_eq ▸ Session.ready_committed se _
  have hknown : (⟨st.withRow r.model row', []⟩ : Written).id? (r.refOf row) = some row'.id :=
    congrArg some hid.symm
  have hreload := ready_reload hready hknown (Store.mem_rows_withRow.2 (.inl rfl))
  rw [show r.refOf row' = r.refOf row from congrArg (Ref.stored r.model.name) hid] at hreload
  rw [commitValues_apply, Action.bind_apply_of_ok (congrArg Outcome.result hcommit), hcommit]
  exact hreload

theorem commitValues_of_error {e : WriteError}
    (hst : st.rewrite r.schema r.model now row (r.model.fillValues es) = .error e) :
    (r.commitValues (r.refOf row) es se).result = .error (.write e) ∧
      (r.commitValues (r.refOf row) es se).session = se.rolledBack := by
  have hflush := flush_fill hse hm hrow es
  rw [hst] at hflush
  have hcommit := Action.commit_of_error (s := r.schema)
    { se with staged := se.staged.edit r.model row.id (r.model.fillValues es) }
    hse.active hflush
  rw [commitValues_apply, Action.bind_apply_of_error (congrArg Outcome.result hcommit), hcommit]
  exact ⟨rfl, rfl⟩

end Values

omit hse in
theorem create_apply (h : se.staged = .empty) (es : List (String × Value)) : r.create es se =
    (Action.commit r.schema >>= fun w => r.reload w (.draft 0))
      { se with staged := (Staging.empty.addDraft r.model (r.model.columnValues es)).1 } := by
  have hdraft : (Action.stageDraft r.model (r.model.columnValues es) se).result =
      .ok (.draft 0) := by
    unfold Action.stageDraft Staging.addDraft
    rw [h]
    rfl
  unfold create
  rw [Action.bind_apply_of_ok hdraft, ← h]
  rfl

omit hse in
/-- What is read back is known by an id. -/
theorem reload_ok {w : Written} {ref ref' : Ref} (h : (r.reload w ref se).result = .ok ref') :
    ∃ id, w.id? ref = some id := by
  cases hid : w.id? ref with
  | some id => exact ⟨id, rfl⟩
  | none =>
    unfold reload at h
    rw [hid] at h
    cases h

/-- A new record is rolled back, or placed and then read back. -/
theorem create_cases (hm : r.model ∈ r.schema.models) (es : List (String × Value)) :
    (∃ e, (r.create es se).result = .error (.write e) ∧
      (r.create es se).session = se.rolledBack) ∨
    ∃ w forms, (r.model.initialValues now (r.model.columnValues es)).encode = .ok forms ∧
      Written.place r.model ⟨st, []⟩ (0, forms) = .ok w ∧
      (r.create es se).result = (r.reload w (.draft 0) (se.committed w.store)).result ∧
      (r.create es se).session = (r.reload w (.draft 0) (se.committed w.store)).session := by
  rw [create_apply hse.staged]
  obtain ⟨rfl, rfl, -, hactive⟩ := hse
  generalize hdrafting : ({ se with staged := (Staging.empty.addDraft r.model
    (r.model.columnValues es)).1 } : Session) = drafting
  have hdraft : drafting.inactive = false ∧ drafting.rolledBack = se.rolledBack ∧
      ∀ st, drafting.committed st = se.committed st := by
    rw [← hdrafting]
    exact ⟨hactive, rfl, fun _ => rfl⟩
  cases hflush : drafting.staged.flush r.schema drafting.now drafting.store drafting.records with
  | error e =>
    have hcommit := Action.commit_of_error drafting hdraft.1 hflush
    rw [Action.bind_apply_of_error (congrArg Outcome.result hcommit), hcommit]
    exact .inl ⟨e, rfl, hdraft.2.1⟩
  | ok w =>
    have hcommit := Action.commit_of_ok drafting hdraft.1 hflush
    rw [hdraft.2.2] at hcommit
    rw [Action.bind_apply_of_ok (congrArg Outcome.result hcommit), hcommit]
    rw [← hdrafting] at hflush
    obtain ⟨⟨⟩, -, hadded⟩ := except_bind_ok.1 ((Staging.flush_draft hm _).symm.trans hflush)
    obtain ⟨encoded, hencoded, hplaced⟩ := Written.add_ok hadded
    obtain ⟨e, later, hfirst, hlater, rfl⟩ := mapM_cons_ok.1 hencoded
    cases hlater
    obtain ⟨w', hplaced, hw⟩ := except_bind_ok.1 hplaced
    cases hw
    obtain ⟨hnumber, hforms⟩ := Written.encode_pair_ok hfirst
    obtain ⟨n, forms⟩ := e
    obtain rfl : n = 0 := hnumber
    exact .inr ⟨w, forms, hforms, hplaced, rfl, rfl⟩

/-- A record that was placed and is known by its number is a new row of the store, and is read
back. -/
theorem reload_placed (hs : r.schema.Stamped) (hm : r.model ∈ r.schema.models) {w : Written}
    {forms : Assigned}
    (hforms : (r.model.initialValues now (r.model.columnValues es)).encode = .ok forms)
    (hplaced : Written.place r.model ⟨st, []⟩ (0, forms) = .ok w) {id : Int}
    (hid : w.id? (.draft 0) = some id) :
    ∃ row, r.model.NewRow now (r.model.columnValues es) row ∧
      row.check r.model (st.rows r.model) = .ok () ∧
      (r.reload w (.draft 0) (se.committed w.store)).result = .ok (r.refOf row) ∧
      (r.reload w (.draft 0) (se.committed w.store)).session.Ready
        (st.withRow r.model row) now := by
  obtain ⟨row, rfl, hrow, hwritten, hchecked⟩ := Written.place_newRow (hs.names _ hm)
    (hs.id_mem _ hm) hforms hplaced hid
  have hready : (se.committed w.store).Ready (st.withRow r.model row) now :=
    hwritten ▸ hse.now_eq ▸ Session.ready_committed se _
  have hreload := ready_reload hready hid
    (by rw [hwritten]; exact Store.mem_rows_withRow.2 (.inl rfl))
  exact ⟨row, hrow, hchecked, hreload⟩

/-- A record that is created is a new row of the store. -/
theorem create_ok (hs : r.schema.Stamped) (hm : r.model ∈ r.schema.models) {ref : Ref}
    (h : (r.create es se).result = .ok ref) :
    ∃ row, ref = r.refOf row ∧ r.model.NewRow now (r.model.columnValues es) row ∧
      row.check r.model (st.rows r.model) = .ok () ∧
      (r.create es se).session.Ready (st.withRow r.model row) now := by
  rcases create_cases hse hm es with ⟨e, hfailed, -⟩ |
    ⟨w, forms, hforms, hplaced, hresult, hsession⟩
  · rw [hfailed] at h
    cases h
  · rw [hresult] at h
    rw [hsession]
    obtain ⟨id, hid⟩ := reload_ok h
    obtain ⟨row, hrow, hchecked, hread, hready⟩ := reload_placed hse hs hm hforms hplaced hid
    exact ⟨row, Except.ok.inj (h.symm.trans hread), hrow, hchecked, hready⟩

end Commits

end Resource

end Records
